/-
# Ordered multimaps

A multimap keeps its entries in the order of their keys; an insertion goes behind the
entries with the same key.  `lowerBound` splits the entries at a key, into those whose
key is smaller and the rest.  The order is a field, so every operation proves that it
keeps it, and what a user needs afterwards is who is a member and that the first entry
has the smallest key.
-/
import Mathlib.Data.List.Basic
import Mathlib.Order.Lattice

/-- Entries in the order of their keys. -/
structure Multimap (κ ν : Type*) [LinearOrder κ] where
  entries : List (κ × ν)
  sorted : entries.Pairwise fun a b => a.1 ≤ b.1

namespace Multimap

variable {κ ν : Type*} [LinearOrder κ]

/-- Insert an entry into a list, behind those whose key is not larger. -/
def insertEntry (e : κ × ν) : List (κ × ν) → List (κ × ν)
  | [] => [e]
  | f :: l => if e.1 < f.1 then e :: f :: l else f :: insertEntry e l

theorem mem_insertEntry {e f : κ × ν} {l : List (κ × ν)} :
    f ∈ insertEntry e l ↔ f = e ∨ f ∈ l := by
  induction l with
  | nil => simp [insertEntry]
  | cons g l ih =>
      rw [insertEntry]
      split
      · rw [List.mem_cons]
      · rw [List.mem_cons, List.mem_cons, ih]
        tauto

theorem sorted_insertEntry (e : κ × ν) {l : List (κ × ν)}
    (h : l.Pairwise fun a b => a.1 ≤ b.1) :
    (insertEntry e l).Pairwise fun a b => a.1 ≤ b.1 := by
  induction l with
  | nil => simp [insertEntry]
  | cons f l ih =>
      obtain ⟨hf, hl⟩ := List.pairwise_cons.mp h
      rw [insertEntry]
      split
      · rename_i hlt
        refine List.pairwise_cons.mpr ⟨fun g hg => ?_, h⟩
        rcases List.mem_cons.mp hg with rfl | hg
        · exact hlt.le
        · exact hlt.le.trans (hf g hg)
      · rename_i hlt
        refine List.pairwise_cons.mpr ⟨fun g hg => ?_, ih hl⟩
        rcases mem_insertEntry.mp hg with rfl | hg
        · exact not_lt.mp hlt
        · exact hf g hg

theorem perm_insertEntry (e : κ × ν) (l : List (κ × ν)) : (insertEntry e l).Perm (e :: l) := by
  induction l with
  | nil => exact List.Perm.refl _
  | cons f l ih =>
      rw [insertEntry]
      split
      · exact List.Perm.refl _
      · exact (ih.cons f).trans (List.Perm.swap e f l)

/-- Any relation that holds along the entries is kept when the new entry comes after those
whose key is not larger and before the others. -/
theorem pairwise_insertEntry {R : κ × ν → κ × ν → Prop} {e : κ × ν} {l : List (κ × ν)}
    (h : l.Pairwise R) (hafter : ∀ f ∈ l, f.1 ≤ e.1 → R f e)
    (hbefore : ∀ f ∈ l, e.1 < f.1 → R e f) (hsorted : l.Pairwise fun a b => a.1 ≤ b.1) :
    (insertEntry e l).Pairwise R := by
  induction l with
  | nil => exact List.pairwise_singleton R e
  | cons f l ih =>
      obtain ⟨hf, hl⟩ := List.pairwise_cons.mp h
      obtain ⟨hfle, hlsorted⟩ := List.pairwise_cons.mp hsorted
      rw [insertEntry]
      split
      · rename_i hlt
        refine List.pairwise_cons.mpr ⟨fun g hg => hbefore g hg ?_, h⟩
        rcases List.mem_cons.mp hg with rfl | hg
        · exact hlt
        · exact hlt.trans_le (hfle g hg)
      · rename_i hlt
        refine List.pairwise_cons.mpr ⟨fun g hg => ?_, ih hl
          (fun g hg => hafter g (List.mem_cons_of_mem f hg))
          (fun g hg => hbefore g (List.mem_cons_of_mem f hg)) hlsorted⟩
        rcases mem_insertEntry.mp hg with rfl | hg
        · exact hafter f List.mem_cons_self (not_lt.mp hlt)
        · exact hf g hg

/-- No entries. -/
def empty : Multimap κ ν := ⟨[], List.Pairwise.nil⟩

/-- `insert`. -/
def insert (m : Multimap κ ν) (k : κ) (v : ν) : Multimap κ ν :=
  ⟨insertEntry (k, v) m.entries, sorted_insertEntry _ m.sorted⟩

/-- `erase` of one entry. -/
def erase [DecidableEq ν] (m : Multimap κ ν) (e : κ × ν) : Multimap κ ν :=
  ⟨m.entries.erase e, m.sorted.sublist List.erase_sublist⟩

/-- The first entry, `begin()`. -/
def first? (m : Multimap κ ν) : Option (κ × ν) := m.entries.head?

/-- The entries before `lower_bound(k)`. -/
def belowBound (m : Multimap κ ν) (k : κ) : List (κ × ν) :=
  m.entries.takeWhile fun e => e.1 < k

/-- The multimap without the entries before `lower_bound(k)`. -/
def fromBound (m : Multimap κ ν) (k : κ) : Multimap κ ν :=
  ⟨m.entries.dropWhile fun e => e.1 < k, m.sorted.sublist (List.dropWhile_sublist _)⟩

@[simp] theorem mem_insert {m : Multimap κ ν} {k : κ} {v : ν} {e : κ × ν} :
    e ∈ (m.insert k v).entries ↔ e = (k, v) ∨ e ∈ m.entries := mem_insertEntry

theorem mem_of_mem_erase [DecidableEq ν] {m : Multimap κ ν} {e f : κ × ν}
    (h : f ∈ (m.erase e).entries) : f ∈ m.entries := List.mem_of_mem_erase h

theorem mem_of_first? {m : Multimap κ ν} {f : κ × ν} (h : m.first? = some f) : f ∈ m.entries :=
  List.mem_of_head? h

/-- The first entry has the smallest key. -/
theorem first?_le {m : Multimap κ ν} {f e : κ × ν} (h : m.first? = some f)
    (he : e ∈ m.entries) : f.1 ≤ e.1 := by
  obtain ⟨l, hl⟩ := List.head?_eq_some_iff.mp h
  have hsorted := m.sorted
  rw [hl] at he hsorted
  rcases List.mem_cons.mp he with rfl | he
  · exact le_rfl
  · exact (List.pairwise_cons.mp hsorted).1 e he

/-- A multimap with an entry has a first one. -/
theorem exists_first? {m : Multimap κ ν} {e : κ × ν} (he : e ∈ m.entries) :
    ∃ f, m.first? = some f := by
  cases hm : m.entries with
  | nil => simp [hm] at he
  | cons f l => exact ⟨f, by rw [first?, hm]; rfl⟩

/-- A bound splits the entries. -/
theorem belowBound_append_fromBound (m : Multimap κ ν) (k : κ) :
    m.belowBound k ++ (m.fromBound k).entries = m.entries := List.takeWhile_append_dropWhile

/-- The entries before a bound have smaller keys. -/
theorem lt_of_mem_belowBound {m : Multimap κ ν} {k : κ} {e : κ × ν}
    (h : e ∈ m.belowBound k) : e.1 < k := by
  have hlt := List.all_eq_true.mp List.all_takeWhile e h
  simpa using hlt

/-- What is left from a bound on has no smaller key. -/
theorem mem_fromBound {m : Multimap κ ν} {k : κ} {e : κ × ν} :
    e ∈ (m.fromBound k).entries ↔ e ∈ m.entries ∧ k ≤ e.1 := by
  obtain ⟨l, hl⟩ := m
  show e ∈ l.dropWhile (fun e => e.1 < k) ↔ e ∈ l ∧ k ≤ e.1
  induction l with
  | nil => simp
  | cons f l ih =>
      obtain ⟨hf, hl⟩ := List.pairwise_cons.mp hl
      by_cases hlt : f.1 < k
      · rw [List.dropWhile_cons_of_pos (by simpa using hlt), ih hl, List.mem_cons]
        refine and_congr_left fun hk => ⟨Or.inr, fun h => h.resolve_left ?_⟩
        rintro rfl
        exact absurd hlt (not_lt.mpr hk)
      · -- the order puts no smaller key behind this one
        rw [List.dropWhile_cons_of_neg (by simpa using hlt)]
        refine ⟨fun h => ⟨h, ?_⟩, And.left⟩
        rcases List.mem_cons.mp h with rfl | h
        · exact not_lt.mp hlt
        · exact (not_lt.mp hlt).trans (hf e h)

/-- The entries before a bound are those with smaller keys. -/
theorem belowBound_eq_filter (m : Multimap κ ν) (k : κ) :
    m.belowBound k = m.entries.filter fun e => e.1 < k := by
  have hbelow : (m.belowBound k).filter (fun e => e.1 < k) = m.belowBound k :=
    List.filter_eq_self.mpr fun e he => decide_eq_true (lt_of_mem_belowBound he)
  have hfrom : (m.fromBound k).entries.filter (fun e => e.1 < k) = [] :=
    List.filter_eq_nil_iff.mpr fun e he => by simpa using (mem_fromBound.mp he).2
  have hsplit := congrArg (List.filter fun e => e.1 < k) (belowBound_append_fromBound m k)
  rw [List.filter_append, hbelow, hfrom, List.append_nil] at hsplit
  exact hsplit

/-- The others are those from the bound on. -/
theorem fromBound_eq_filter (m : Multimap κ ν) (k : κ) :
    (m.fromBound k).entries = m.entries.filter fun e => k ≤ e.1 := by
  have hbelow : (m.belowBound k).filter (fun e => k ≤ e.1) = [] :=
    List.filter_eq_nil_iff.mpr fun e he => by simpa using lt_of_mem_belowBound he
  have hfrom : (m.fromBound k).entries.filter (fun e => k ≤ e.1) = (m.fromBound k).entries :=
    List.filter_eq_self.mpr fun e he => decide_eq_true (mem_fromBound.mp he).2
  have hsplit := congrArg (List.filter fun e => k ≤ e.1) (belowBound_append_fromBound m k)
  rw [List.filter_append, hbelow, hfrom, List.nil_append] at hsplit
  exact hsplit

/-! ## The entries of one key -/

/-- The entries with the key `k`, `equal_range(k)`. -/
def equalRange (m : Multimap κ ν) (k : κ) : List (κ × ν) :=
  (m.fromBound k).entries.takeWhile fun e => e.1 ≤ k

/-- The entries from `upper_bound(k)` on. -/
def aboveRange (m : Multimap κ ν) (k : κ) : List (κ × ν) :=
  (m.fromBound k).entries.dropWhile fun e => e.1 ≤ k

/-- A key splits the entries into three parts. -/
theorem append_equalRange (m : Multimap κ ν) (k : κ) :
    m.belowBound k ++ (m.equalRange k ++ m.aboveRange k) = m.entries := by
  rw [equalRange, aboveRange, List.takeWhile_append_dropWhile, belowBound_append_fromBound]

/-- What `dropWhile` leaves of a list in order has larger keys. -/
theorem lt_of_mem_dropWhile {k : κ} {e : κ × ν} {l : List (κ × ν)}
    (hl : l.Pairwise fun a b => a.1 ≤ b.1) (h : e ∈ l.dropWhile fun e => e.1 ≤ k) : k < e.1 := by
  induction l with
  | nil => cases h
  | cons f l ih =>
      obtain ⟨hf, hl⟩ := List.pairwise_cons.mp hl
      by_cases hle : f.1 ≤ k
      · rw [List.dropWhile_cons_of_pos (by simpa using hle)] at h
        exact ih hl h
      · rw [List.dropWhile_cons_of_neg (by simpa using hle)] at h
        rcases List.mem_cons.mp h with rfl | h
        · exact not_le.mp hle
        · exact (not_le.mp hle).trans_le (hf e h)

/-- The entries behind an equal range have larger keys. -/
theorem lt_of_mem_aboveRange {m : Multimap κ ν} {k : κ} {e : κ × ν} (h : e ∈ m.aboveRange k) :
    k < e.1 := lt_of_mem_dropWhile (m.fromBound k).sorted h

theorem mem_equalRange {m : Multimap κ ν} {k : κ} {e : κ × ν} :
    e ∈ m.equalRange k ↔ e ∈ m.entries ∧ e.1 = k := by
  constructor
  · intro he
    have hle : e.1 ≤ k := by simpa using List.all_eq_true.mp List.all_takeWhile e he
    obtain ⟨hentry, hge⟩ := mem_fromBound.mp (List.takeWhile_subset _ he)
    exact ⟨hentry, le_antisymm hle hge⟩
  · rintro ⟨he, rfl⟩
    rw [← m.append_equalRange e.1, List.mem_append, List.mem_append] at he
    rcases he with hbelow | hrange | habove
    · exact absurd (lt_of_mem_belowBound hbelow) (lt_irrefl _)
    · exact hrange
    · exact absurd (lt_of_mem_aboveRange habove) (lt_irrefl _)

/-- Where all keys are `k`, an entry is found by its value. -/
theorem erase_eq_eraseP_value [DecidableEq ν] {k : κ} (v : ν) {l : List (κ × ν)}
    (h : ∀ e ∈ l, e.1 = k) : l.erase (k, v) = l.eraseP fun e => e.2 = v := by
  induction l with
  | nil => rfl
  | cons e l ih =>
      obtain ⟨hkey, hrest⟩ := List.forall_mem_cons.mp h
      obtain ⟨j, w⟩ := e
      obtain rfl : j = k := hkey
      by_cases hw : w = v
      · subst hw
        rw [List.erase_cons_head, List.eraseP_cons_of_pos (by simp)]
      · rw [List.erase_cons_tail (by simpa using hw), List.eraseP_cons_of_neg (by simpa using hw),
          ih hrest]

/-- Erasing one entry is erasing the first with its value in its equal range. -/
theorem entries_erase [DecidableEq ν] (m : Multimap κ ν) (k : κ) (v : ν) :
    (m.erase (k, v)).entries = m.belowBound k ++
      ((m.equalRange k).eraseP (fun e => e.2 = v) ++ m.aboveRange k) := by
  have hbelow : (k, v) ∉ m.belowBound k := fun h => lt_irrefl _ (lt_of_mem_belowBound h)
  have habove : (k, v) ∉ m.aboveRange k := fun h => lt_irrefl _ (lt_of_mem_aboveRange h)
  have hsplit : m.entries.erase (k, v) =
      m.belowBound k ++ ((m.equalRange k).erase (k, v) ++ m.aboveRange k) := by
    conv_lhs => rw [← m.append_equalRange k]
    rw [List.erase_append_right _ hbelow, List.erase_append]
    split
    · rfl
    · rename_i hrange
      rw [List.erase_of_not_mem habove, List.erase_of_not_mem hrange]
  rw [← erase_eq_eraseP_value v fun e he => (mem_equalRange.mp he).2]
  exact hsplit

end Multimap
