import Mathlib.Data.List.Nodup
import Mathlib.Data.List.Induction
import Mathlib.Data.List.Sort
import Mathlib.Order.Defs.LinearOrder

/-!
# Lists of keyed rows

A list whose elements have distinct keys is a finite map: looking a key up finds
the one element that has it. Sorted by its keys, it is the only list with its
entries, which is how finite maps are compared here.
-/

namespace Oclaw.Lib

section Rows

variable {α κ : Type*} [DecidableEq κ]

theorem find?_of_nodup_keys {key : α → κ} {l : List α} (hnodup : (l.map key).Nodup) {a : α}
    (ha : a ∈ l) : l.find? (fun b => key b == key a) = some a := by
  cases hfind : l.find? (fun b => key b == key a) with
  | none =>
      have hnone := List.find?_eq_none.mp hfind a ha
      simp at hnone
  | some b =>
      have hb : b ∈ l := List.mem_of_find?_eq_some hfind
      have hkey : key b = key a := by simpa using List.find?_some hfind
      rw [List.inj_on_of_nodup_map hnodup hb ha hkey]

end Rows

/-! ## Sorted entries -/

section Entries

variable {κ β : Type*} [LinearOrder κ] {k : κ} {v : β} {e : κ × β} {es ms : List (κ × β)}

def KeysSorted (es : List (κ × β)) : Prop := es.Pairwise (fun a b => a.1 < b.1)

/-- Enter a value; the one that its key had is replaced. -/
def insertEntry (k : κ) (v : β) : List (κ × β) → List (κ × β)
  | [] => [(k, v)]
  | e :: es =>
      if e.1 < k then e :: insertEntry k v es
      else if k < e.1 then (k, v) :: e :: es
      else (k, v) :: es

/-- Enter values one after the other. -/
def ofEntries (es : List (κ × β)) : List (κ × β) :=
  es.foldl (fun m e => insertEntry e.1 e.2 m) []

theorem ofEntries_concat (es : List (κ × β)) (e : κ × β) :
    ofEntries (es ++ [e]) = insertEntry e.1 e.2 (ofEntries es) := by
  simp [ofEntries]

theorem mem_insertEntry (h : e ∈ insertEntry k v es) : e = (k, v) ∨ e ∈ es := by
  induction es with
  | nil => exact Or.inl (List.mem_singleton.mp h)
  | cons a es ih =>
      simp only [insertEntry] at h
      split at h
      · rcases List.mem_cons.mp h with rfl | h
        · exact Or.inr (by simp)
        · exact (ih h).imp id (List.mem_cons_of_mem _)
      · split at h
        · exact List.mem_cons.mp h
        · exact (List.mem_cons.mp h).imp id (List.mem_cons_of_mem _)

theorem KeysSorted.insertEntry (h : KeysSorted es) : KeysSorted (insertEntry k v es) := by
  induction es with
  | nil => exact List.pairwise_singleton ..
  | cons a es ih =>
      obtain ⟨hhead, htail⟩ := List.pairwise_cons.mp h
      simp only [Oclaw.Lib.insertEntry]
      split
      · rename_i hlt
        refine List.pairwise_cons.mpr ⟨?_, ih htail⟩
        intro b hb
        rcases mem_insertEntry hb with rfl | hb
        · exact hlt
        · exact hhead b hb
      · split
        · rename_i hlt
          refine List.pairwise_cons.mpr ⟨?_, h⟩
          intro b hb
          rcases List.mem_cons.mp hb with rfl | hb
          · exact hlt
          · exact hlt.trans (hhead b hb)
        · rename_i hge hle
          have hkey : a.1 = k := le_antisymm (not_lt.mp hle) (not_lt.mp hge)
          exact List.pairwise_cons.mpr ⟨fun b hb => hkey ▸ hhead b hb, htail⟩

theorem insertEntry_perm (h : k ∉ es.map Prod.fst) : (insertEntry k v es).Perm ((k, v) :: es) := by
  induction es with
  | nil => exact List.Perm.refl _
  | cons a es ih =>
      obtain ⟨hne, hes⟩ := not_or.mp (mt List.mem_cons.mpr h)
      simp only [insertEntry]
      split
      · exact ((ih hes).cons a).trans (List.Perm.swap _ _ _)
      · rename_i hge
        rw [if_pos (lt_of_le_of_ne (not_lt.mp hge) hne)]

theorem keysSorted_ofEntries (es : List (κ × β)) : KeysSorted (ofEntries es) := by
  induction es using List.reverseRecOn with
  | nil => exact List.Pairwise.nil
  | append_singleton es e ih =>
      rw [ofEntries_concat]
      exact ih.insertEntry

theorem mem_ofEntries (h : e ∈ ofEntries es) : e ∈ es := by
  induction es using List.reverseRecOn with
  | nil => exact h
  | append_singleton es a ih =>
      rw [ofEntries_concat] at h
      rw [List.mem_append, List.mem_singleton]
      exact (mem_insertEntry h).symm.imp ih id

theorem ofEntries_perm (h : (es.map Prod.fst).Nodup) : (ofEntries es).Perm es := by
  induction es using List.reverseRecOn with
  | nil => exact List.Perm.refl _
  | append_singleton es e ih =>
      rw [List.map_append, List.nodup_append] at h
      obtain ⟨hes, -, hdisj⟩ := h
      have hperm := ih hes
      have hnew : e.1 ∉ (ofEntries es).map Prod.fst := by
        rw [(hperm.map Prod.fst).mem_iff]
        exact fun hmem => hdisj _ hmem _ (by simp) rfl
      rw [ofEntries_concat]
      exact (insertEntry_perm hnew).trans
        ((hperm.cons e).trans (List.perm_append_singleton e es).symm)

theorem KeysSorted.nodup (h : KeysSorted es) : (es.map Prod.fst).Nodup := by
  rw [List.Nodup, List.pairwise_map]
  exact h.imp ne_of_lt

/-- A map is entered from its entries in any order. -/
theorem ofEntries_eq (hperm : es.Perm ms) (h : KeysSorted ms) : ofEntries es = ms := by
  have hnodup : (es.map Prod.fst).Nodup := (hperm.map Prod.fst).nodup_iff.mpr h.nodup
  refine List.Perm.eq_of_pairwise ?_ (keysSorted_ofEntries es) h
    ((ofEntries_perm hnodup).trans hperm)
  intro a b _ _ hab hba
  exact absurd hab (lt_asymm hba)

/-! ### Looking up -/

theorem lookup_cons_eq (k : κ) (e : κ × β) (es : List (κ × β)) :
    (e :: es).lookup k = if k = e.1 then some e.2 else es.lookup k := by
  rw [List.lookup_cons]
  by_cases hk : k = e.1
  · rw [if_pos hk, hk, beq_self_eq_true]
  · rw [if_neg hk, beq_false_of_ne hk]

theorem lookup_insertEntry (k k' : κ) (v : β) (es : List (κ × β)) :
    (insertEntry k v es).lookup k' = if k' = k then some v else es.lookup k' := by
  induction es with
  | nil => rw [insertEntry, lookup_cons_eq]
  | cons e es ih =>
      rw [insertEntry]
      split
      · rename_i hlt
        rw [lookup_cons_eq, ih, lookup_cons_eq]
        by_cases he : k' = e.1
        · rw [if_pos he, if_neg (he ▸ ne_of_lt hlt), if_pos he]
        · rw [if_neg he, if_neg he]
      · split
        · rw [lookup_cons_eq]
        · rename_i hge hle
          have hkey : e.1 = k := le_antisymm (not_lt.mp hle) (not_lt.mp hge)
          rw [lookup_cons_eq, lookup_cons_eq, hkey]
          by_cases hk : k' = k
          · rw [if_pos hk, if_pos hk]
          · rw [if_neg hk, if_neg hk, if_neg hk]

/-- Entering what is there already changes nothing. -/
theorem insertEntry_of_lookup (h : KeysSorted es) (hk : es.lookup k = some v) :
    insertEntry k v es = es := by
  induction es with
  | nil => cases hk
  | cons e es ih =>
      obtain ⟨hhead, htail⟩ := List.pairwise_cons.mp h
      rw [lookup_cons_eq] at hk
      by_cases he : k = e.1
      · rw [if_pos he] at hk
        rw [insertEntry, he, if_neg (lt_irrefl _), if_neg (lt_irrefl _), ← Option.some.inj hk]
      · rw [if_neg he] at hk
        have hlt : e.1 < k := by
          obtain ⟨l₁, l₂, hsplit, -⟩ := List.lookup_eq_some_iff.mp hk
          exact hhead (k, v) (by rw [hsplit]; simp)
        rw [insertEntry, if_pos hlt, ih htail hk]

/-- Remove the entry of a key. -/
def removeEntry (k : κ) (es : List (κ × β)) : List (κ × β) := es.filter (fun e => e.1 ≠ k)

theorem KeysSorted.removeEntry (h : KeysSorted es) : KeysSorted (removeEntry k es) :=
  List.Pairwise.sublist List.filter_sublist h

theorem lookup_removeEntry (k k' : κ) (es : List (κ × β)) :
    (removeEntry k es).lookup k' = if k' = k then none else es.lookup k' := by
  induction es with
  | nil => simp [removeEntry]
  | cons e es ih =>
      rw [removeEntry, List.filter_cons]
      split
      · rename_i hne
        rw [lookup_cons_eq, ← removeEntry, ih, lookup_cons_eq]
        by_cases he : k' = e.1
        · rw [if_pos he, if_neg (he ▸ of_decide_eq_true hne), if_pos he]
        · rw [if_neg he, if_neg he]
      · rename_i heq
        have hk : e.1 = k := by simpa using heq
        rw [← removeEntry, ih, lookup_cons_eq, hk]
        by_cases he : k' = k
        · rw [if_pos he, if_pos he]
        · rw [if_neg he, if_neg he, if_neg he]

/-- `entry(k).or_insert(v)` -/
def orInsert (k : κ) (v : β) (es : List (κ × β)) : List (κ × β) :=
  if (es.lookup k).isSome then es else insertEntry k v es

theorem KeysSorted.orInsert (h : KeysSorted es) : KeysSorted (orInsert k v es) := by
  unfold Oclaw.Lib.orInsert
  split
  · exact h
  · exact h.insertEntry

theorem lookup_orInsert (k k' : κ) (v : β) (es : List (κ × β)) :
    (orInsert k v es).lookup k' =
      if k' = k then some ((es.lookup k).getD v) else es.lookup k' := by
  unfold orInsert
  cases hk : es.lookup k with
  | some w =>
      by_cases he : k' = k <;> simp [he, hk]
  | none => simp [lookup_insertEntry]

end Entries

end Oclaw.Lib
