/-!
Maps as association lists sorted by key. Two maps with the same entries are equal, so equality of maps is
equality of values, and the order in which the entries were put does not show.
-/

namespace ProjectGraph

/-- Strictly ascending keys. -/
def Ascending {κ ν : Type} [Ord κ] (entries : List (κ × ν)) : Prop :=
  entries.Pairwise fun a b => compare a.1 b.1 = .lt

structure SortedMap (κ ν : Type) [Ord κ] where
  entries : List (κ × ν)
  ascending : Ascending entries

namespace SortedMap

section Entries

variable {κ ν : Type} [Ord κ]

/-- Puts `value` under `key`, in place of what is there. -/
def insertEntry (key : κ) (value : ν) : List (κ × ν) → List (κ × ν)
  | [] => [(key, value)]
  | (k, v) :: rest =>
    match compare key k with
    | .lt => (key, value) :: (k, v) :: rest
    | .eq => (key, value) :: rest
    | .gt => (k, v) :: insertEntry key value rest

/-- The value under `key`. -/
def lookupEntry (key : κ) : List (κ × ν) → Option ν
  | [] => none
  | (k, v) :: rest => if compare key k = .eq then some v else lookupEntry key rest

theorem mem_insertEntry {key : κ} {value : ν} {entries : List (κ × ν)} {e : κ × ν}
    (h : e ∈ insertEntry key value entries) : e = (key, value) ∨ e ∈ entries := by
  induction entries with
  | nil => simpa [insertEntry] using h
  | cons hd tl ih =>
    obtain ⟨k, v⟩ := hd
    rw [insertEntry] at h
    split at h <;> grind

theorem mem_of_lookupEntry [Std.LawfulEqOrd κ] {key : κ} {value : ν} {entries : List (κ × ν)}
    (h : lookupEntry key entries = some value) : (key, value) ∈ entries := by
  induction entries with
  | nil => simp [lookupEntry] at h
  | cons hd tl ih =>
    obtain ⟨k, v⟩ := hd
    rw [lookupEntry] at h
    split at h
    · rename_i hk
      cases Std.LawfulEqOrd.eq_of_compare hk
      cases h
      exact List.mem_cons_self
    · exact List.mem_cons_of_mem _ (ih h)

/-- A key behind all others is put to the end. -/
theorem insertEntry_of_lt [Std.OrientedOrd κ] {key : κ} {entries : List (κ × ν)}
    (h : ∀ e ∈ entries, compare e.1 key = .lt)
    (value : ν) : insertEntry key value entries = entries ++ [(key, value)] := by
  induction entries with
  | nil => rfl
  | cons hd tl ih =>
    obtain ⟨k, v⟩ := hd
    obtain ⟨hhd, htl⟩ := List.forall_mem_cons.1 h
    have hgt : compare key k = .gt := Std.OrientedCmp.gt_of_lt hhd
    rw [insertEntry, hgt]
    simp only [ih htl, List.cons_append]

variable [Std.TransOrd κ] [Std.LawfulEqOrd κ]

theorem insertEntry_ascending (key : κ) (value : ν) {entries : List (κ × ν)}
    (h : Ascending entries) : Ascending (insertEntry key value entries) := by
  induction entries with
  | nil => exact List.pairwise_singleton _ _
  | cons hd tl ih =>
    obtain ⟨k, v⟩ := hd
    obtain ⟨hall, htl⟩ := List.pairwise_cons.1 h
    rw [insertEntry]
    split
    · rename_i hlt
      refine List.pairwise_cons.2 ⟨fun e he => ?_, h⟩
      rcases List.mem_cons.1 he with rfl | he
      · exact hlt
      · exact Std.TransCmp.lt_trans hlt (hall e he)
    · rename_i heq
      cases Std.LawfulEqOrd.eq_of_compare heq
      exact List.pairwise_cons.2 ⟨hall, htl⟩
    · rename_i hgt
      refine List.pairwise_cons.2 ⟨fun e he => ?_, ih htl⟩
      rcases mem_insertEntry he with rfl | he
      · exact Std.OrientedCmp.lt_of_gt hgt
      · exact hall e he

end Entries

variable {κ ν : Type} [Ord κ]

instance [DecidableEq κ] [DecidableEq ν] : DecidableEq (SortedMap κ ν) := fun a b =>
  decidable_of_iff (a.entries = b.entries) (by cases a; cases b; simp)

def empty : SortedMap κ ν := ⟨[], List.Pairwise.nil⟩

instance : Inhabited (SortedMap κ ν) := ⟨empty⟩

def get? (m : SortedMap κ ν) (key : κ) : Option ν := lookupEntry key m.entries

def contains (m : SortedMap κ ν) (key : κ) : Bool := (m.get? key).isSome

def keys (m : SortedMap κ ν) : List κ := m.entries.map (·.1)

def values (m : SortedMap κ ν) : List ν := m.entries.map (·.2)

def isEmpty (m : SortedMap κ ν) : Bool := m.entries.isEmpty

/-- Takes out what is under `key`. -/
def erase (m : SortedMap κ ν) (key : κ) : SortedMap κ ν :=
  ⟨m.entries.filter fun e => compare key e.1 != .eq, m.ascending.filter _⟩

theorem ext_entries {a b : SortedMap κ ν} (h : a.entries = b.entries) : a = b := by
  cases a; cases b; simpa using h

/-- Lists of entries, by the first entry that differs; entries by key, then by value. -/
def compareEntries [Ord ν] : List (κ × ν) → List (κ × ν) → Ordering :=
  List.compareLex (compareLex (compareOn Prod.fst) (compareOn Prod.snd))

instance [Ord ν] [Std.TransOrd κ] [Std.TransOrd ν] : Std.TransCmp (compareEntries (κ := κ) (ν := ν)) :=
  inferInstanceAs (Std.TransCmp (List.compareLex (compareLex (compareOn Prod.fst) (compareOn Prod.snd))))

instance [Ord ν] [Std.LawfulEqOrd κ] [Std.LawfulEqOrd ν] :
    Std.LawfulEqCmp (compareEntries (κ := κ) (ν := ν)) := by
  have : Std.LawfulEqCmp (compareLex (compareOn (Prod.fst (α := κ) (β := ν))) (compareOn Prod.snd)) := {
    compare_self := by simp [compareLex_eq_eq, compareOn]
    eq_of_compare := by
      rintro ⟨k, v⟩ ⟨l, w⟩ h
      simpa [compareLex_eq_eq, compareOn] using h }
  exact inferInstanceAs (Std.LawfulEqCmp
    (List.compareLex (compareLex (compareOn (Prod.fst (α := κ) (β := ν))) (compareOn Prod.snd))))

instance [Ord ν] : Ord (SortedMap κ ν) := ⟨fun a b => compareEntries a.entries b.entries⟩

theorem compare_eq [Ord ν] (a b : SortedMap κ ν) : compare a b = compareEntries a.entries b.entries := rfl

instance [Ord ν] [Std.TransOrd κ] [Std.TransOrd ν] : Std.TransOrd (SortedMap κ ν) where
  eq_swap := by
    intro a b
    rw [compare_eq, compare_eq]
    exact Std.OrientedCmp.eq_swap
  isLE_trans := by
    intro a b c
    rw [compare_eq, compare_eq, compare_eq]
    exact Std.TransCmp.isLE_trans

instance [Ord ν] [Std.LawfulEqOrd κ] [Std.LawfulEqOrd ν] : Std.LawfulEqOrd (SortedMap κ ν) where
  compare_self := by
    intro a
    rw [compare_eq]
    exact Std.ReflCmp.compare_self
  eq_of_compare := by
    intro a b h
    rw [compare_eq] at h
    exact ext_entries (Std.LawfulEqCmp.eq_of_compare h)

@[simp] theorem get?_empty (key : κ) : (empty : SortedMap κ ν).get? key = none := rfl

variable [Std.TransOrd κ] [Std.LawfulEqOrd κ]

def insert (m : SortedMap κ ν) (key : κ) (value : ν) : SortedMap κ ν :=
  ⟨insertEntry key value m.entries, insertEntry_ascending key value m.ascending⟩

/-- The map of the pairs; of two with one key the later one counts. -/
def ofList (pairs : List (κ × ν)) : SortedMap κ ν :=
  pairs.foldl (fun m e => m.insert e.1 e.2) empty

/-- Entries that go on in order are put behind what is there. -/
theorem entries_foldl_insert (m : SortedMap κ ν) (later : List (κ × ν)) (h : Ascending (m.entries ++ later)) :
    (later.foldl (fun m e => m.insert e.1 e.2) m).entries = m.entries ++ later := by
  induction later generalizing m with
  | nil => simp
  | cons e later ih =>
    have hlt : ∀ d ∈ m.entries, compare d.1 e.1 = .lt := fun d hd =>
      (List.pairwise_append.1 h).2.2 d hd e List.mem_cons_self
    have hentries : (m.insert e.1 e.2).entries = m.entries ++ [e] := insertEntry_of_lt hlt e.2
    rw [List.foldl_cons, ih, hentries, List.append_assoc, List.singleton_append]
    rwa [hentries, List.append_assoc, List.singleton_append]

/-- A map is put together from its entries. -/
@[simp] theorem ofList_entries (m : SortedMap κ ν) : ofList m.entries = m :=
  ext_entries (entries_foldl_insert empty m.entries m.ascending)

theorem get?_insert_self (m : SortedMap κ ν) (key : κ) (value : ν) :
    (m.insert key value).get? key = some value := by
  obtain ⟨entries, h⟩ := m
  simp only [insert, get?]
  clear h
  induction entries with
  | nil => simp [insertEntry, lookupEntry, Std.ReflCmp.compare_self]
  | cons hd tl ih =>
    obtain ⟨k, v⟩ := hd
    rw [insertEntry]
    split <;> rename_i hc <;> simp_all [lookupEntry, Std.ReflCmp.compare_self]

theorem get?_insert_of_ne (m : SortedMap κ ν) {key other : κ} (value : ν) (h : other ≠ key) :
    (m.insert key value).get? other = m.get? other := by
  have hne : compare other key ≠ .eq := fun he => h (Std.LawfulEqOrd.eq_of_compare he)
  obtain ⟨entries, ha⟩ := m
  simp only [insert, get?]
  clear ha
  induction entries with
  | nil => simp [insertEntry, lookupEntry, hne]
  | cons hd tl ih =>
    obtain ⟨k, v⟩ := hd
    rw [insertEntry]
    split <;> rename_i hc
    · simp [lookupEntry, hne]
    · cases Std.LawfulEqOrd.eq_of_compare hc
      simp [lookupEntry, hne]
    · simp [lookupEntry, ih]

end SortedMap

end ProjectGraph
