import PacketLayers.Command.Run

namespace PacketLayers

theorem Source.open?_brace (rest : Bytes) (s : Source) : Source.open? (0x7B :: rest) ≠ .ok s := by
  have unknown :
      Legacy.dialect? (Bytes.ofLittle ((Window.ofFile (0x7B :: rest)).peek 0 4)) = none := by
    have low : Bytes.ofLittle ((Window.ofFile (0x7B :: rest)).peek 0 4) % 256 = 0x7B := by
      simp [Window.ofFile, Window.peek, Bytes.slice, Bytes.ofLittle]
    unfold Legacy.dialect?
    repeat' split
    all_goals first
      | rfl
      | omega
  have unframed : (0x7B :: rest : Bytes).take 4 ≠ sectionMagic := by
    simp [sectionMagic]
  intro opened
  unfold Source.open? at opened
  rw [if_neg unframed] at opened
  split at opened
  · cases opened
  · simp [Legacy.Reader.open, unknown] at opened

theorem Bytes.toList_loop (octets : ByteArray) (i : Nat) (listed : Bytes) :
    ByteArray.toList.loop octets i listed = listed.reverse ++ octets.data.toList.drop i := by
  fun_induction ByteArray.toList.loop octets i listed with
  | case1 i listed inside ih =>
    have bound : i < octets.data.toList.length := inside
    have next : octets.get! i = octets.data.toList[i] := by
      rw [Array.getElem_toList]
      exact getElem!_pos octets.data i inside
    rw [ih, next, List.reverse_cons, List.append_assoc, List.singleton_append,
      ← List.drop_eq_getElem_cons bound]
  | case2 i listed past =>
    have bound : octets.data.toList.length ≤ i := Nat.le_of_not_lt past
    rw [List.drop_eq_nil_of_le bound, List.append_nil]

namespace Command

theorem utf8_brace (chars : List Char) :
    (String.ofList ('\x7b' :: chars)).toUTF8.toList = 0x7B :: chars.utf8Encode.data.toList := by
  rw [String.toUTF8_eq_toByteArray, String.toByteArray_ofList, List.utf8Encode_cons,
    List.utf8Encode_singleton, ByteArray.toList, Bytes.toList_loop, ByteArray.toList_data_append,
    List.toList_data_toByteArray]
  rfl

theorem exists_reportText (o : Options) (r : Report) :
    ∃ chars, reportText o r = String.ofList ('\x7b' :: chars) := by
  have opens (layout : Json.Layout) : ∃ chars, Report.codec.write layout r = '\x7b' :: chars := by
    simp only [Report.codec, Json.Codec.record, Json.Fields.writeRecord, Json.bracketed]
    split
    · exact ⟨_, rfl⟩
    · exact ⟨_, rfl⟩
  unfold reportText
  split
  · obtain ⟨chars, eq⟩ := opens (.indented 0)
    exact ⟨chars, congrArg String.ofList eq⟩
  · obtain ⟨chars, eq⟩ := opens .compact
    exact ⟨chars, congrArg String.ofList eq⟩

/-- A report that was written cannot be opened as a capture. -/
theorem open?_reportText (o : Options) (r : Report) (s : Source) :
    Source.open? (reportText o r).toUTF8.toList ≠ .ok s := by
  obtain ⟨chars, eq⟩ := exists_reportText o r
  rw [eq, utf8_brace]
  exact Source.open?_brace _ s

end Command

end PacketLayers
