import Mathlib.Data.List.AList
import Mathlib.Data.List.Induction

/-!
# Finite maps

A hash map is an association list with distinct keys. What Mathlib's `AList` does not
have: lookups after an update as one equation, entering a list of pairs, keeping and
removing several entries at once.
-/

namespace Oclaw.Lib

abbrev HashMap (κ β : Type*) : Type _ := AList (fun _ : κ => β)

namespace HashMap

variable {κ β : Type*} [DecidableEq κ] {k k' : κ} {v : β} {m : HashMap κ β}
variable {es : List (κ × β)}

theorem lookup_insert_eq : (m.insert k v).lookup k' = if k' = k then some v else m.lookup k' := by
  split
  · rename_i heq
    rw [heq, AList.lookup_insert]
  · rename_i hne
    exact AList.lookup_insert_ne hne

theorem lookup_erase_eq : (m.erase k).lookup k' = if k' = k then none else m.lookup k' := by
  split
  · rename_i heq
    rw [heq, AList.lookup_erase]
  · rename_i hne
    exact AList.lookup_erase_ne hne

/-- Keep the entries of which the test is true. -/
def retain (p : κ → β → Bool) (m : HashMap κ β) : HashMap κ β :=
  ⟨m.entries.filter (fun e => p e.1 e.2), m.nodupKeys.sublist List.filter_sublist⟩

theorem lookup_retain (p : κ → β → Bool) :
    (m.retain p).lookup k = (m.lookup k).filter (p k) := by
  ext v
  rw [← Option.mem_def, AList.mem_lookup_iff, Option.filter_eq_some_iff, ← Option.mem_def,
    AList.mem_lookup_iff]
  simp [retain]

/-- Enter pairs one after the other. -/
def ofEntries (es : List (κ × β)) : HashMap κ β :=
  es.foldl (fun m e => m.insert e.1 e.2) ∅

theorem ofEntries_concat (e : κ × β) :
    ofEntries (es ++ [e]) = (ofEntries es).insert e.1 e.2 := by
  simp [ofEntries]

theorem lookup_ofEntries (h : (es.map Prod.fst).Nodup) :
    (ofEntries es).lookup k = some v ↔ (k, v) ∈ es := by
  induction es using List.reverseRecOn with
  | nil => simp [ofEntries]
  | append_singleton es e ih =>
      rw [List.map_append, List.nodup_append] at h
      obtain ⟨hes, -, hdisj⟩ := h
      rw [ofEntries_concat, lookup_insert_eq, List.mem_append, List.mem_singleton]
      split
      · rename_i heq
        subst heq
        have hnew : (e.1, v) ∉ es := fun hmem =>
          hdisj _ (List.mem_map_of_mem hmem) _ (by simp) rfl
        simp [hnew, Prod.ext_iff, eq_comm]
      · rename_i hne
        rw [ih hes]
        simp [Prod.ext_iff, hne]

/-- Remove the entries of several keys. -/
def eraseAll (m : HashMap κ β) (ks : List κ) : HashMap κ β := ks.foldl (fun m k => m.erase k) m

theorem lookup_eraseAll {ks : List κ} :
    (m.eraseAll ks).lookup k = if k ∈ ks then none else m.lookup k := by
  induction ks generalizing m with
  | nil => simp [eraseAll]
  | cons a ks ih =>
      have hstep : m.eraseAll (a :: ks) = HashMap.eraseAll (m.erase a) ks := rfl
      rw [hstep, ih, lookup_erase_eq]
      by_cases hk : k ∈ ks
      · simp [hk]
      · simp [hk]

/-! ## Entries as pairs -/

def toPairs (m : HashMap κ β) : List (κ × β) := m.entries.map (fun e => (e.1, e.2))

omit [DecidableEq κ] in
@[simp] theorem length_toPairs (m : HashMap κ β) : m.toPairs.length = m.entries.length :=
  List.length_map ..

theorem mem_toPairs : (k, v) ∈ m.toPairs ↔ m.lookup k = some v := by
  rw [← Option.mem_def, AList.mem_lookup_iff]
  simp [toPairs]

theorem kerase_eq_filter {l : List (Sigma fun _ : κ => β)} (h : l.NodupKeys) (k : κ) :
    l.kerase k = l.filter (fun e => e.1 ≠ k) := by
  induction l with
  | nil => rfl
  | cons e l ih =>
      obtain ⟨hnew, hl⟩ := List.nodupKeys_cons.mp h
      by_cases hk : k = e.1
      · rw [List.kerase_cons_eq hk, List.filter_cons_of_neg (by simp [hk]), List.filter_eq_self.mpr]
        intro e' he'
        have hne : e'.1 ≠ e.1 := fun heq => hnew (heq ▸ List.mem_keys_of_mem he')
        simpa [hk] using hne
      · rw [List.kerase_cons_ne hk, List.filter_cons_of_pos (by simpa using Ne.symm hk), ih hl]

theorem toPairs_erase : toPairs (m.erase k) = m.toPairs.filter (fun e => e.1 ≠ k) := by
  show (m.entries.kerase k).map _ = (m.entries.map _).filter _
  rw [kerase_eq_filter m.nodupKeys, List.filter_map]
  rfl

theorem toPairs_insert :
    toPairs (m.insert k v) = (k, v) :: m.toPairs.filter (fun e => e.1 ≠ k) := by
  rw [← toPairs_erase]
  rfl

end HashMap

end Oclaw.Lib
