import PacketLayers.Dissect.Capture

namespace PacketLayers

inductive Counted where
  | frame (l : Layer)
  | ethertype (type : Nat)
deriving DecidableEq

def Counted.ethertype? : Counted → Option Nat
  | frame _ => none
  | ethertype type => some type

def Call.counted (call : Call Tally) : Counted :=
  match call.label with
  | .layer l => .frame l
  | .ethertype => .ethertype (Ethernet.ethertype.value call.frame.header)

namespace Counters

/-- Each ethertype stands once in the table, the lesser before the greater. -/
def Ordered (c : Counters) : Prop := c.ethertypes.Pairwise fun a b => a.1 < b.1

def total (table : List (Nat × Nat)) : Nat := table.foldr (fun e n => e.2 + n) 0

def count (c : Counters) : Counted → Counters
  | .frame l => c.countLayer l
  | .ethertype type => { c with ethertypes := bump type c.ethertypes }

theorem record_eq_count (c : Counters) (call : Call Tally) :
    c.record call = c.count call.counted := by
  cases call with
  | mk label frame => cases label <;> rfl

theorem lookup_cons (key k n : Nat) (rest : List (Nat × Nat)) :
    ((k, n) :: rest).lookup key = if key = k then some n else rest.lookup key := by
  by_cases here : key = k
  · subst here
    simp
  · simp [List.lookup_cons, beq_false_of_ne here, here]

theorem lookup_eq_none {key : Nat} {table : List (Nat × Nat)} (absent : ∀ e ∈ table, e.1 ≠ key) :
    table.lookup key = none := by
  induction table with
  | nil => rfl
  | cons e rest ih =>
    have other : key ≠ e.1 := (absent e List.mem_cons_self).symm
    rw [lookup_cons, if_neg other]
    exact ih fun e' he' => absent e' (List.mem_cons_of_mem _ he')

theorem lookup_bump (key : Nat) {table : List (Nat × Nat)}
    (ascending : table.Pairwise fun a b => a.1 < b.1) (type : Nat) :
    (bump key table).lookup type =
      if key = type then some (lookup type table + 1) else table.lookup type := by
  induction table with
  | nil =>
    simp only [bump, lookup_cons, eq_comm (a := key)]
    rfl
  | cons e rest ih =>
    obtain ⟨k, n⟩ := e
    obtain ⟨least, ascending⟩ := List.pairwise_cons.mp ascending
    by_cases before : key < k
    · simp only [bump, if_pos before]
      rw [lookup_cons]
      by_cases here : key = type
      · subst here
        have absent : ((k, n) :: rest).lookup key = none := by
          refine lookup_eq_none fun e he => ?_
          rcases List.mem_cons.mp he with rfl | he
          · exact Nat.ne_of_gt before
          · exact Nat.ne_of_gt (Nat.lt_trans before (least e he))
        simp [lookup, absent]
      · simp [here, Ne.symm here]
    · by_cases same : key = k
      · subst same
        simp only [bump, if_neg before, if_pos, lookup, lookup_cons]
        by_cases here : key = type
        · simp [here]
        · simp [here, Ne.symm here]
      · simp only [bump, if_neg before, if_neg same, lookup, lookup_cons, ih ascending]
        by_cases here : type = k
        · simp [here, same]
        · simp [here]

theorem mem_bump {key : Nat} {table : List (Nat × Nat)} {e : Nat × Nat} (h : e ∈ bump key table) :
    e ∈ table ∨ e.1 = key := by
  fun_induction bump key table with
  | case1 => simp_all
  | case2 k n rest before =>
    rcases List.mem_cons.mp h with rfl | h
    · exact .inr rfl
    · exact .inl h
  | case3 n rest before =>
    rcases List.mem_cons.mp h with rfl | h
    · exact .inr rfl
    · exact .inl (List.mem_cons_of_mem _ h)
  | case4 k n rest before same ih =>
    rcases List.mem_cons.mp h with rfl | h
    · exact .inl List.mem_cons_self
    · exact (ih h).imp_left (List.mem_cons_of_mem _)

theorem ascending_bump (key : Nat) {table : List (Nat × Nat)}
    (ascending : table.Pairwise fun a b => a.1 < b.1) :
    (bump key table).Pairwise fun a b => a.1 < b.1 := by
  fun_induction bump key table with
  | case1 => exact List.pairwise_singleton _ _
  | case2 k n rest before =>
    refine List.pairwise_cons.mpr ⟨fun e he => ?_, ascending⟩
    rcases List.mem_cons.mp he with rfl | he
    · exact before
    · exact Nat.lt_trans before ((List.pairwise_cons.mp ascending).1 e he)
  | case3 n rest before => exact List.pairwise_cons.mpr (List.pairwise_cons.mp ascending)
  | case4 k n rest before same ih =>
    obtain ⟨least, ascending⟩ := List.pairwise_cons.mp ascending
    refine List.pairwise_cons.mpr ⟨fun e he => ?_, ih ascending⟩
    rcases mem_bump he with he | rfl
    · exact least e he
    · show k < e.1
      omega

theorem total_bump (key : Nat) (table : List (Nat × Nat)) :
    total (bump key table) = total table + 1 := by
  fun_induction bump key table with
  | case1 => rfl
  | case2 k n rest before => exact Nat.add_comm 1 _
  | case3 n rest before => exact Nat.succ_add n _
  | case4 k n rest before same ih => exact congrArg (n + ·) ih

theorem le_total {table : List (Nat × Nat)} {e : Nat × Nat} (entry : e ∈ table) :
    e.2 ≤ total table := by
  induction entry with
  | head rest => exact Nat.le_add_right _ _
  | tail e' _ ih => exact Nat.le_add_left_of_le ih

theorem pos_bump (key : Nat) {table : List (Nat × Nat)} (pos : ∀ e ∈ table, 0 < e.2) :
    ∀ e ∈ bump key table, 0 < e.2 := by
  fun_induction bump key table with
  | case1 => simp
  | case2 k n rest before => simpa using pos
  | case3 n rest before =>
    intro e he
    rcases List.mem_cons.mp he with rfl | he
    · exact Nat.succ_pos n
    · exact pos e (List.mem_cons_of_mem _ he)
  | case4 k n rest before same ih =>
    obtain ⟨here, pos⟩ := List.forall_mem_cons.mp pos
    exact List.forall_mem_cons.mpr ⟨here, ih pos⟩

theorem Ordered.count {c : Counters} (ordered : c.Ordered) (x : Counted) : (c.count x).Ordered := by
  cases x with
  | frame l => cases l <;> exact ordered
  | ethertype type => exact ascending_bump type ordered

theorem frames_count (c : Counters) (x : Counted) (l : Layer) :
    (c.count x).frames l = c.frames l + if x = .frame l then 1 else 0 := by
  cases x with
  | frame k => cases k <;> cases l <;> rfl
  | ethertype type => cases l <;> rfl

theorem lookup_count {c : Counters} (ordered : c.Ordered) (x : Counted) (type : Nat) :
    (c.count x).ethertypes.lookup type =
      if x = .ethertype type then some (lookup type c.ethertypes + 1)
      else c.ethertypes.lookup type := by
  cases x with
  | frame l => cases l <;> rfl
  | ethertype key => simp [Counters.count, lookup_bump key ordered]

theorem Ordered.foldl {c : Counters} (ordered : c.Ordered) (xs : List Counted) :
    (xs.foldl Counters.count c).Ordered := by
  induction xs generalizing c with
  | nil => exact ordered
  | cons x xs ih => exact ih (ordered.count x)

theorem frames_foldl (c : Counters) (xs : List Counted) (l : Layer) :
    (xs.foldl Counters.count c).frames l = c.frames l + xs.count (.frame l) := by
  induction xs generalizing c with
  | nil => rfl
  | cons x xs ih =>
    rw [List.foldl_cons, ih, frames_count, List.count_cons, Nat.add_assoc,
      Nat.add_comm (List.count _ _)]
    simp only [beq_iff_eq]

theorem ethertypes_foldl (c : Counters) (xs : List Counted) :
    (xs.foldl Counters.count c).ethertypes =
      (xs.filterMap Counted.ethertype?).foldl (fun table type => bump type table) c.ethertypes := by
  induction xs generalizing c with
  | nil => rfl
  | cons x xs ih =>
    cases x with
    | frame l =>
      rw [List.foldl_cons, ih]
      cases l <;> rfl
    | ethertype type => exact ih _

theorem lookup_foldl {c : Counters} (ordered : c.Ordered) (xs : List Counted) (type : Nat) :
    (xs.foldl Counters.count c).ethertypes.lookup type =
      if .ethertype type ∈ xs then
        some (lookup type c.ethertypes + xs.count (.ethertype type))
      else c.ethertypes.lookup type := by
  induction xs generalizing c with
  | nil => rfl
  | cons x xs ih =>
    rw [List.foldl_cons, ih (ordered.count x), lookup, lookup_count ordered]
    by_cases here : x = .ethertype type
    · subst here
      by_cases again : Counted.ethertype type ∈ xs
      · simp only [again, if_true, List.mem_cons_self, List.count_cons_self, Option.getD_some]
        rw [Nat.add_assoc, Nat.add_comm 1]
      · simp [again, List.count_eq_zero.mpr again]
    · simp [here, Ne.symm here, List.mem_cons, lookup]

end Counters

theorem Dissection.tally_eq {β : Type} (c : Counters) (run : Run Tally β) :
    tally c run.steps = (run.calls.map Call.counted).foldl Counters.count c := by
  obtain ⟨steps, result⟩ := run
  simp only [Run.calls]
  induction steps generalizing c with
  | nil => rfl
  | cons step rest ih =>
    cases step with
    | call call => simp only [tally, Counters.record_eq_count, ih]; rfl
    | event e => exact ih c

end PacketLayers
