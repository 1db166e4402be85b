import PacketLayers.Proofs.Json.Scalars

namespace PacketLayers.Json

theorem blank_lineBreak (layout : Layout) : Blank layout.lineBreak := by
  cases layout with
  | compact => simp [Blank, Layout.lineBreak]
  | indented depth =>
    intro c mem
    rcases List.mem_cons.mp mem with rfl | mem
    · rfl
    · rw [List.eq_of_mem_replicate mem]
      rfl

theorem blank_afterColon (layout : Layout) : Blank layout.afterColon := by
  cases layout <;> simp [Blank, Layout.afterColon, isBlank]

/-! ### Items between brackets -/

def tail (closing : Char) (layout : Layout) (items : List Text) (rest : Text) : Text :=
  items.flatMap (fun item => ',' :: (layout.inner.lineBreak ++ item)) ++
    (layout.lineBreak ++ closing :: rest)

theorem tail_cons (closing : Char) (layout : Layout) (item : Text) (items : List Text)
    (rest : Text) : tail closing layout (item :: items) rest =
      ',' :: (layout.inner.lineBreak ++ (item ++ tail closing layout items rest)) := by
  simp [tail]

theorem bracketed_cons_append (opening closing : Char) (layout : Layout) (item : Text)
    (items : List Text) (rest : Text) :
    bracketed opening closing layout (item :: items) ++ rest =
      opening :: (layout.inner.lineBreak ++ (item ++ tail closing layout items rest)) := by
  simp [bracketed, tail]

theorem bracketed_opens (opening closing : Char) (layout : Layout) (items : List Text) :
    ∃ more, bracketed opening closing layout items = opening :: more := by
  cases items with
  | nil => exact ⟨_, rfl⟩
  | cons item items => exact ⟨_, rfl⟩

theorem ends_tail {closing : Char} (bracket : closing = ']' ∨ closing = '\x7d') (layout : Layout)
    (items : List Text) (rest : Text) : Ends (tail closing layout items rest) := by
  intro c head
  cases items with
  | cons item items =>
    rw [tail_cons] at head
    cases head
    decide
  | nil =>
    cases layout with
    | compact =>
      cases head
      rcases bracket with rfl | rfl <;> decide
    | indented depth =>
      cases head
      decide

theorem length_lt_tail (closing : Char) (layout : Layout) (items : List Text) (rest : Text) :
    items.length < (tail closing layout items rest).length := by
  induction items with
  | nil =>
    simp only [tail, List.flatMap_nil, List.nil_append, List.length_append, List.length_cons,
      List.length_nil]
    omega
  | cons item items ih =>
    rw [tail_cons]
    simp only [List.length_cons, List.length_append]
    omega

theorem length_lt_bracketed (opening closing : Char) (layout : Layout) (items : List Text)
    (rest : Text) : items.length < (bracketed opening closing layout items ++ rest).length := by
  cases items with
  | nil => simp [bracketed]
  | cons item items =>
    have behind := length_lt_tail closing layout items rest
    rw [bracketed_cons_append]
    simp only [List.length_cons, List.length_append]
    omega

theorem exists_bracketed (opening closing : Char) (layout : Layout) (items : List Text)
    (rest : Text) : ∃ more, bracketed opening closing layout items ++ rest = opening :: more ∧
      ∀ blanks : Text, items.length < (blanks ++ opening :: more).length := by
  obtain ⟨more, text⟩ := bracketed_opens opening closing layout items
  have longer := length_lt_bracketed opening closing layout items rest
  rw [text, List.cons_append] at longer ⊢
  refine ⟨more ++ rest, rfl, ?_⟩
  intro blanks
  rw [List.length_append]
  omega

/-! ### Lists -/

theorem nextItem_close (first : Bool) {blanks : Text} (blank : Blank blanks) (rest : Text) :
    nextItem first (blanks ++ ']' :: rest) = .ok (.close (']' :: rest)) := by
  rw [nextItem, skipBlanks_append blank rfl]
  rfl

theorem closeArray_close (rest : Text) : closeArray (']' :: rest) = .ok rest := by
  simp only [closeArray, skipBlanks_cons (show isBlank ']' = false from rfl)]

namespace Codec

variable {α : Type} {c : Codec α}

theorem Lawful.nextItem_first (lawful : c.Lawful) (layout : Layout) (a : α) {blanks : Text}
    (blank : Blank blanks) (rest : Text) :
    nextItem true (blanks ++ (c.write layout a ++ rest)) =
      .ok (.item (c.write layout a ++ rest)) := by
  obtain ⟨first, more, text, visible, -, other⟩ := lawful.opens layout a
  rw [text, List.cons_append, nextItem, skipBlanks_append blank visible]
  simp [other]

theorem Lawful.nextItem_later (lawful : c.Lawful) (layout : Layout) (a : α) {blanks : Text}
    (blank : Blank blanks) (rest : Text) :
    nextItem false (',' :: (blanks ++ (c.write layout a ++ rest))) =
      .ok (.item (c.write layout a ++ rest)) := by
  obtain ⟨first, more, text, visible, -, other⟩ := lawful.opens layout a
  rw [text, List.cons_append, nextItem, skipBlanks_cons rfl]
  simp [skipBlanks_append blank visible, other]

theorem Lawful.items_tail (lawful : c.Lawful) (layout : Layout) (as : List α) (rest : Text)
    {bound : Text} (bounded : as.length < bound.length) :
    items c.read bound false (tail ']' layout (as.map (c.write layout.inner)) rest) =
      .ok (as, ']' :: rest) := by
  induction as generalizing bound with
  | nil =>
    cases bound with
    | nil => cases bounded
    | cons b bound =>
      rw [items]
      simp only [List.map_nil, tail, List.flatMap_nil, List.nil_append,
        nextItem_close false (blank_lineBreak layout)]
  | cons a as ih =>
    cases bound with
    | nil => cases bounded
    | cons b bound =>
      -- Whatever comes next ends the item: a comma, a bracket or the line break before one.
      have value := (lawful.reads layout.inner a).here
        (ends_tail (.inl rfl) layout (as.map (c.write layout.inner)) rest)
      rw [items, List.map_cons, tail_cons,
        lawful.nextItem_later layout.inner a (blank_lineBreak _)]
      simp only [value, ih (Nat.lt_of_succ_lt_succ bounded)]

theorem Lawful.items_bracketed (lawful : c.Lawful) (layout : Layout) (as : List α) (rest : Text)
    {bound more : Text} (bounded : as.length < bound.length)
    (text : bracketed '[' ']' layout (as.map (c.write layout.inner)) ++ rest = '[' :: more) :
    items c.read bound true more = .ok (as, ']' :: rest) := by
  cases bound with
  | nil => cases bounded
  | cons b bound =>
    cases as with
    | nil =>
      obtain rfl : ']' :: rest = more := (List.cons.inj text).2
      rw [items, ← List.nil_append (']' :: rest), nextItem_close true (by simp [Blank])]
      rfl
    | cons a as =>
      rw [List.map_cons, bracketed_cons_append] at text
      obtain rfl := (List.cons.inj text).2
      have value := (lawful.reads layout.inner a).here
        (ends_tail (.inl rfl) layout (as.map (c.write layout.inner)) rest)
      rw [items, lawful.nextItem_first layout.inner a (blank_lineBreak _)]
      simp only [value, lawful.items_tail layout as rest (Nat.lt_of_succ_lt_succ bounded)]

theorem Lawful.list (lawful : c.Lawful) : c.list.Lawful where
  opens layout as := by
    obtain ⟨more, text⟩ := bracketed_opens '[' ']' layout (as.map (c.write layout.inner))
    exact ⟨'[', more, text, rfl, by decide, by decide⟩
  reads layout as blanks rest blank ends := by
    obtain ⟨more, whole, bounded⟩ :=
      exists_bracketed '[' ']' layout (as.map (c.write layout.inner)) rest
    have enough := bounded blanks
    rw [List.length_map] at enough
    simp only [Codec.list, whole, skipBlanks_append blank (show isBlank '[' = false from rfl),
      lawful.items_bracketed layout as rest enough whole, closeArray_close]

end Codec

/-! ### Records -/

namespace Fields

/-- Entries that fill the fields of a record one after the other, and what is held behind them. -/
def Leads {σ : Type} (slot : String → σ → Slot σ) : σ → List (String × Text) → σ → Prop
  | held, [], last => held = last
  | held, (name, value) :: es, last =>
    ∃ read next, slot name held = .vacant read ∧ Reads read value next ∧ Leads slot next es last

/-- What is written of a record fills its fields, which have no other names than those given. -/
structure Lawful {α : Type} (f : Fields α) (names : List String) : Prop where
  named : ∀ layout a, ∀ e ∈ f.write layout a, e.1 ∈ names
  leads : ∀ layout a, ∃ last, Leads f.slot f.start (f.write layout a) last ∧ f.all last = some a

theorem lawful_empty : empty.Lawful [] where
  named layout a e mem := by cases mem
  leads layout a := ⟨(), rfl, rfl⟩

section Required

variable {β γ : Type} {name : String} {c : Codec β} {rest : Fields γ} {names : List String}

theorem vacant_own {value : Text} {b : β} (reads : Reads c.read value b) (held : rest.Held) :
    ∃ read, (required name c rest).slot name (none, held) = .vacant read ∧
      Reads read value (some b, held) := by
  refine ⟨_, if_pos rfl, ?_⟩
  intro blanks text blank ends
  simp only [reads blanks text blank ends]
  rfl

theorem vacant_other {key : String} (different : key ≠ name) {held next : rest.Held}
    {read : Reader rest.Held} (vacant : rest.slot key held = .vacant read) {value : Text}
    (reads : Reads read value next) (first : Option β) :
    ∃ read, (required name c rest).slot key (first, held) = .vacant read ∧
      Reads read value (first, next) := by
  have skipped : (required name c rest).slot key (first, held) = _ := if_neg different
  rw [skipped, vacant]
  refine ⟨_, rfl, ?_⟩
  intro blanks text blank ends
  simp only [reads blanks text blank ends]
  rfl

theorem leads_required {held : rest.Held} {es : List (String × Text)} {last : rest.Held}
    (leads : Leads rest.slot held es last) (other : ∀ e ∈ es, e.1 ≠ name) (first : Option β) :
    Leads (required name c rest).slot (first, held) es (first, last) := by
  induction es generalizing held with
  | nil => exact congrArg (Prod.mk first) leads
  | cons e es ih =>
    obtain ⟨key, value⟩ := e
    obtain ⟨different, other⟩ := List.forall_mem_cons.mp other
    obtain ⟨read, next, vacant, reads, leads⟩ := leads
    obtain ⟨read, vacant, reads⟩ := vacant_other different vacant reads first
    exact ⟨read, (first, next), vacant, reads, ih leads other⟩

theorem leads_first {value : Text} {b : β} (reads : Reads c.read value b) {held last : rest.Held}
    {es : List (String × Text)} (leads : Leads rest.slot held es last)
    (other : ∀ e ∈ es, e.1 ≠ name) :
    Leads (required name c rest).slot (none, held) ((name, value) :: es) (some b, last) := by
  obtain ⟨read, vacant, reads⟩ := vacant_own reads held
  exact ⟨read, (some b, held), vacant, reads, leads_required leads other (some b)⟩

theorem Lawful.other (fields : rest.Lawful names) (fresh : name ∉ names) (layout : Layout) (a : γ) :
    ∀ e ∈ rest.write layout a, e.1 ≠ name :=
  fun e mem same => fresh (same ▸ fields.named layout a e mem)

theorem Lawful.required (fields : rest.Lawful names) (codec : c.Lawful) (fresh : name ∉ names) :
    (required name c rest).Lawful (name :: names) where
  named layout pair e mem := by
    rcases List.mem_cons.mp mem with rfl | mem
    · exact List.mem_cons_self
    · exact List.mem_cons_of_mem _ (fields.named layout pair.2 e mem)
  leads layout pair := by
    obtain ⟨last, leads, all⟩ := fields.leads layout pair.2
    have other := fields.other fresh layout pair.2
    refine ⟨(some pair.1, last), leads_first (codec.reads layout pair.1) leads other, ?_⟩
    simp only [Fields.required, all]

theorem reads_orNull (codec : c.Lawful) (layout : Layout) (b : β) :
    Reads (orNull c.read) (c.write layout b) (some b) := by
  intro blanks text blank ends
  obtain ⟨first, more, written, visible, other, -⟩ := codec.opens layout b
  have value := (codec.reads layout b).here ends
  rw [written, List.cons_append] at value ⊢
  unfold orNull
  rw [skipBlanks_append blank visible]
  split
  · rename_i null
    exact absurd (List.cons.inj null).1 other
  · simp only [value]

theorem Lawful.optional (fields : rest.Lawful names) (codec : c.Lawful) (fresh : name ∉ names) :
    (optional name c rest).Lawful (name :: names) where
  named layout pair e mem := by
    obtain ⟨b, a⟩ := pair
    cases b with
    | none => exact List.mem_cons_of_mem _ (fields.named layout a e mem)
    | some b =>
      rcases List.mem_cons.mp mem with rfl | mem
      · exact List.mem_cons_self
      · exact List.mem_cons_of_mem _ (fields.named layout a e mem)
  leads layout pair := by
    obtain ⟨b, a⟩ := pair
    obtain ⟨last, leads, all⟩ := fields.leads layout a
    have other := fields.other fresh layout a
    cases b with
    | none =>
      -- Nothing was written, so the field is still vacant behind the others.
      refine ⟨(none, last), leads_required leads other none, ?_⟩
      simp [Fields.optional, all]
    | some b =>
      refine ⟨(some (some b), last), leads_first (reads_orNull codec layout b) leads other, ?_⟩
      simp [Fields.optional, all]

end Required

def entry (layout : Layout) (e : String × Text) : Text :=
  quote e.1 ++ ':' :: (layout.afterColon ++ e.2)

def entryRest (layout : Layout) (e : String × Text) (rest : Text) : Text :=
  e.1.toList.flatMap escape ++ '"' :: ':' :: (layout.afterColon ++ (e.2 ++ rest))

theorem entry_append (layout : Layout) (e : String × Text) (rest : Text) :
    entry layout e ++ rest = '"' :: entryRest layout e rest := by
  simp [entry, entryRest, quote]

theorem nextEntry_close (first : Bool) {blanks : Text} (blank : Blank blanks) (rest : Text) :
    nextEntry first (blanks ++ '\x7d' :: rest) = .ok (.close ('\x7d' :: rest)) := by
  rw [nextEntry, skipBlanks_append blank rfl]
  rfl

theorem nextEntry_first {blanks : Text} (blank : Blank blanks) (rest : Text) :
    nextEntry true (blanks ++ '"' :: rest) = .ok (.item rest) := by
  rw [nextEntry, skipBlanks_append blank rfl]
  rfl

theorem nextEntry_later {blanks : Text} (blank : Blank blanks) (rest : Text) :
    nextEntry false (',' :: (blanks ++ '"' :: rest)) = .ok (.item rest) := by
  rw [nextEntry, skipBlanks_cons rfl]
  simp [skipBlanks_append blank (show isBlank '"' = false from rfl)]

section Entries

variable {α : Type} {f : Fields α} {held next last : f.Held} {layout : Layout} {rest : Text}

theorem entries_vacant {b : Char} {bound t after : Text} {first : Bool} {e : String × Text}
    {read : Reader f.Held} (item : nextEntry first t = .ok (.item (entryRest layout e after)))
    (vacant : f.slot e.1 held = .vacant read) (reads : Reads read e.2 next) (ends : Ends after) :
    entries f (b :: bound) first held t = entries f bound false next after := by
  have colon (t : Text) : colon (':' :: t) = .ok t := by
    simp only [Fields.colon, skipBlanks_cons (show isBlank ':' = false from rfl)]
  rw [entries, item]
  simp only [entryRest, stringRest_written, String.ofList_toList, vacant, colon,
    reads _ _ (blank_afterColon layout) ends]

theorem entries_tail {es : List (String × Text)} (leads : Leads f.slot held es last)
    {bound : Text} (bounded : es.length < bound.length) :
    entries f bound false held (tail '\x7d' layout (es.map (entry layout)) rest) =
      .ok (last, '\x7d' :: rest) := by
  induction es generalizing bound held with
  | nil =>
    cases bound with
    | nil => cases bounded
    | cons b bound =>
      rw [entries]
      simp only [List.map_nil, tail, List.flatMap_nil, List.nil_append,
        nextEntry_close false (blank_lineBreak layout)]
      cases leads
      rfl
  | cons e es ih =>
    cases bound with
    | nil => cases bounded
    | cons b bound =>
      obtain ⟨read, next, vacant, reads, leads⟩ := leads
      rw [List.map_cons, tail_cons, entry_append]
      rw [entries_vacant (nextEntry_later (blank_lineBreak _) _) vacant reads
        (ends_tail (.inr rfl) layout _ rest)]
      exact ih leads (Nat.lt_of_succ_lt_succ bounded)

theorem entries_bracketed {es : List (String × Text)} (leads : Leads f.slot held es last)
    {bound more : Text} (bounded : es.length < bound.length)
    (text : bracketed '\x7b' '\x7d' layout (es.map (entry layout)) ++ rest = '\x7b' :: more) :
    entries f bound true held more = .ok (last, '\x7d' :: rest) := by
  cases bound with
  | nil => cases bounded
  | cons b bound =>
    cases es with
    | nil =>
      obtain rfl : '\x7d' :: rest = more := (List.cons.inj text).2
      cases leads
      rw [entries, ← List.nil_append ('\x7d' :: rest), nextEntry_close true (by simp [Blank])]
      rfl
    | cons e es =>
      obtain ⟨read, next, vacant, reads, leads⟩ := leads
      rw [List.map_cons, bracketed_cons_append, entry_append] at text
      obtain rfl := (List.cons.inj text).2
      rw [entries_vacant (nextEntry_first (blank_lineBreak _) _) vacant reads
        (ends_tail (.inr rfl) layout _ rest)]
      exact entries_tail leads (Nat.lt_of_succ_lt_succ bounded)

end Entries

theorem readRecord_bracketed {α : Type} {f : Fields α} {names : List String}
    (fields : f.Lawful names) (layout : Layout) (a : α) {blanks : Text} (blank : Blank blanks)
    (rest : Text) :
    f.readRecord (blanks ++ (f.writeRecord layout a ++ rest)) = .ok (a, rest) := by
  obtain ⟨last, leads, all⟩ := fields.leads layout.inner a
  obtain ⟨more, whole, bounded⟩ := exists_bracketed '\x7b' '\x7d' layout
    ((f.write layout.inner a).map (entry layout)) rest
  have enough := bounded blanks
  rw [List.length_map] at enough
  have close : closeObject ('\x7d' :: rest) = .ok rest := by
    rw [closeObject, skipBlanks_cons rfl]
    rfl
  rw [show f.writeRecord layout a ++ rest = '\x7b' :: more from whole, readRecord,
    skipBlanks_append blank rfl]
  simp [entries_bracketed leads enough whole, all, close]

theorem Lawful.record {α β : Type} {f : Fields β} {names : List String} (fields : f.Lawful names)
    {toTuple : α → β} {ofTuple : β → α} (inverse : ∀ a, ofTuple (toTuple a) = a) :
    (Codec.record f toTuple ofTuple).Lawful where
  opens layout a := by
    obtain ⟨more, text⟩ := bracketed_opens '\x7b' '\x7d' layout
      ((f.write layout.inner (toTuple a)).map (entry layout))
    exact ⟨'\x7b', more, text, rfl, by decide, by decide⟩
  reads layout a blanks rest blank ends := by
    simp only [Codec.record, readRecord_bracketed fields layout (toTuple a) blank rest, inverse]

end Fields

namespace Codec

variable {α : Type} {c : Codec α}

theorem Lawful.parse_written (lawful : c.Lawful) (layout : Layout) (a : α) :
    c.parse (String.ofList (c.write layout a)) = .ok a := by
  have whole := (lawful.reads layout a).here (show Ends [] by simp [Ends])
  rw [List.append_nil] at whole
  rw [parse, String.toList_ofList, whole]
  rfl

def rewrite (c : Codec α) (style : α → String) (text : String) : Except ReadFault String :=
  (c.parse text).map style

theorem rewrite_rewrite {style : α → String} (reads : ∀ a, c.parse (style a) = .ok a)
    (other : α → String) (text : String) :
    (c.rewrite style text).bind (c.rewrite other) = c.rewrite other text := by
  unfold rewrite
  cases c.parse text with
  | error e => rfl
  | ok a =>
    simp only [Except.map, Except.bind, reads]

end Codec

end PacketLayers.Json
