import Mathlib.Data.List.Basic
import Mathlib.Data.List.Nodup

/-!
# Request and answer logs

A log mixes plain entries, entries that request a list of keyed answers and the
answers. It is paired when every entry is followed at once by exactly the answers
it requests, in order, and there are no other answers.

`owedAfter` reads a log from the left and keeps the answers still owed. It decides
pairing, it says what a log under construction still needs, and it shows that a
log once broken cannot be mended by appending.
-/

namespace Oclaw.Lib

variable {α κ : Type*}

structure Pairing (α κ : Type*) where
  isAnswer : α → Bool
  /-- The request an answer is for. -/
  key : α → Option κ
  /-- The answers an entry requests. -/
  opens : α → List κ

namespace Pairing

variable (P : Pairing α κ)

inductive Paired : List α → Prop where
  | nil : Paired []
  | block (m : α) (answers rest : List α) : P.isAnswer m = false →
      (∀ r ∈ answers, P.isAnswer r = true) →
      answers.map P.key = (P.opens m).map some → Paired rest →
      Paired (m :: (answers ++ rest))

/-- The keys of the answers of a log, in order. -/
def answerKeys (ms : List α) : List (Option κ) := (ms.filter P.isAnswer).map P.key

/-- The entries of a log that are not answers. -/
def entries (ms : List α) : List α := ms.filter (fun m => !P.isAnswer m)

section Counting

variable {P}

theorem answerKeys_append (xs ys : List α) :
    P.answerKeys (xs ++ ys) = P.answerKeys xs ++ P.answerKeys ys := by
  simp [answerKeys]

theorem entries_append (xs ys : List α) :
    P.entries (xs ++ ys) = P.entries xs ++ P.entries ys := by
  simp [entries]

theorem answerKeys_of_answers {rs : List α} (h : ∀ r ∈ rs, P.isAnswer r = true) :
    P.answerKeys rs = rs.map P.key := by
  rw [answerKeys, List.filter_eq_self.mpr h]

theorem mem_answerKeys {r : α} {ms : List α} (hr : r ∈ ms) (h : P.isAnswer r = true) :
    P.key r ∈ P.answerKeys ms :=
  List.mem_map_of_mem (List.mem_filter.mpr ⟨hr, h⟩)

theorem entries_of_answers {rs : List α} (h : ∀ r ∈ rs, P.isAnswer r = true) :
    P.entries rs = [] := by
  rw [entries, List.filter_eq_nil_iff]
  intro r hr
  simp [h r hr]

/-- In a paired log the answers are the requests of its entries, in order. -/
theorem Paired.answerKeys_eq {ms : List α} (h : P.Paired ms) :
    P.answerKeys ms = ((P.entries ms).flatMap P.opens).map some := by
  induction h with
  | nil => rfl
  | block m answers rest hm hanswers hkeys _ ih =>
      have hcons : m :: (answers ++ rest) = [m] ++ answers ++ rest := by simp
      rw [hcons, answerKeys_append, answerKeys_append, entries_append, entries_append, ih,
        answerKeys_of_answers hanswers, entries_of_answers hanswers, hkeys]
      simp [answerKeys, entries, hm]

end Counting

variable [DecidableEq κ]

/-- Read one entry with `owed` answers outstanding. -/
def settle (owed : List κ) (a : α) : Option (List κ) :=
  match owed with
  | [] => if P.isAnswer a then none else some (P.opens a)
  | k :: rest => if P.isAnswer a ∧ P.key a = some k then some rest else none

/-- The answers owed at the end of a log; `none` once an entry was out of place. -/
def owedAfter (owed : List κ) (ms : List α) : Option (List κ) := ms.foldlM P.settle owed

variable {P}

theorem owedAfter_nil (owed : List κ) : P.owedAfter owed [] = some owed := rfl

theorem owedAfter_append (owed : List κ) (xs ys : List α) :
    P.owedAfter owed (xs ++ ys) = (P.owedAfter owed xs).bind (fun o => P.owedAfter o ys) := by
  unfold owedAfter
  rw [List.foldlM_append]
  rfl

theorem owedAfter_cons (owed : List κ) (a : α) (ms : List α) :
    P.owedAfter owed (a :: ms) = (P.settle owed a).bind (fun o => P.owedAfter o ms) := by
  unfold owedAfter
  rw [List.foldlM_cons]
  rfl

theorem settle_entry {a : α} (h : P.isAnswer a = false) :
    P.settle [] a = some (P.opens a) := by
  simp [settle, h]

theorem settle_answer {a : α} {k : κ} (h : P.isAnswer a = true) (hk : P.key a = some k)
    (rest : List κ) : P.settle (k :: rest) a = some rest := by
  simp [settle, h, hk]

/-- An entry that is no answer, while answers are owed, breaks the log. -/
theorem settle_interrupt {a : α} {k : κ} (h : P.isAnswer a = false) (rest : List κ) :
    P.settle (k :: rest) a = none := by
  simp [settle, h]

theorem owedAfter_answers {ks rest : List κ} : ∀ {rs : List α},
    (∀ r ∈ rs, P.isAnswer r = true) → rs.map P.key = ks.map some →
      P.owedAfter (ks ++ rest) rs = some rest := by
  induction ks with
  | nil =>
      intro rs _ hkeys
      rw [List.map_nil, List.map_eq_nil_iff] at hkeys
      subst hkeys
      rfl
  | cons k ks ih =>
      intro rs hanswers hkeys
      cases rs with
      | nil => cases hkeys
      | cons r rs =>
          rw [List.map_cons, List.map_cons, List.cons.injEq] at hkeys
          rw [List.cons_append, owedAfter_cons,
            settle_answer (hanswers r List.mem_cons_self) hkeys.1]
          exact ih (fun r' hr' => hanswers r' (List.mem_cons_of_mem _ hr')) hkeys.2

theorem Paired.owedAfter_eq {ms : List α} (h : P.Paired ms) :
    P.owedAfter [] ms = some [] := by
  induction h with
  | nil => rfl
  | block m answers rest hm hanswers hkeys _ ih =>
      have hblock := @owedAfter_answers _ _ P _ (P.opens m) [] answers hanswers hkeys
      rw [List.append_nil] at hblock
      rw [owedAfter_cons, settle_entry hm, Option.bind_some, owedAfter_append, hblock]
      exact ih

/-- What a log that settles `owed` looks like: first the owed answers, then a
paired log. -/
theorem exists_answers_of_owedAfter : ∀ {ms : List α} {owed : List κ},
    P.owedAfter owed ms = some [] →
      ∃ answers rest, ms = answers ++ rest ∧ (∀ r ∈ answers, P.isAnswer r = true) ∧
        answers.map P.key = owed.map some ∧ P.Paired rest
  | [], owed, h => by
      rw [owedAfter_nil, Option.some.injEq] at h
      subst h
      exact ⟨[], [], rfl, by simp, rfl, .nil⟩
  | a :: ms, owed, h => by
      rw [owedAfter_cons, Option.bind_eq_some_iff] at h
      obtain ⟨owed', hsettle, hrest⟩ := h
      obtain ⟨answers, rest, rfl, hanswers, hkeys, hpaired⟩ :=
        exists_answers_of_owedAfter hrest
      cases owed with
      | nil =>
          -- nothing owed: `a` opens a block, whose answers come first in the rest
          simp only [settle] at hsettle
          split at hsettle
          · cases hsettle
          · rename_i hentry
            cases hsettle
            exact ⟨[], _, rfl, by simp, rfl,
              .block a answers rest (by simpa using hentry) hanswers hkeys hpaired⟩
      | cons k ks =>
          -- `a` is the next owed answer
          simp only [settle] at hsettle
          split at hsettle
          · rename_i hanswer
            cases hsettle
            refine ⟨a :: answers, rest, rfl, ?_, ?_, hpaired⟩
            · intro r hr
              rcases List.mem_cons.mp hr with rfl | hr
              · exact hanswer.1
              · exact hanswers r hr
            · rw [List.map_cons, List.map_cons, hanswer.2, hkeys]
          · cases hsettle

/-- Reading a log decides whether it is paired. -/
theorem paired_iff_owedAfter {ms : List α} : P.Paired ms ↔ P.owedAfter [] ms = some [] := by
  constructor
  · exact Paired.owedAfter_eq
  · intro h
    obtain ⟨answers, rest, rfl, -, hkeys, hpaired⟩ := exists_answers_of_owedAfter h
    rw [List.map_nil, List.map_eq_nil_iff] at hkeys
    subst hkeys
    exact hpaired

instance (ms : List α) : Decidable (P.Paired ms) :=
  decidable_of_iff _ paired_iff_owedAfter.symm

end Pairing

end Oclaw.Lib
