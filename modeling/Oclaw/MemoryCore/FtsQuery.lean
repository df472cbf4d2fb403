import Oclaw.Lib.MaximalRuns

/-!
# Full-text queries

`build_fts5_query` of `crates/memory-core/src/query_expand.rs`: the words of an input,
quoted and joined by `AND`. Read as an FTS5 query, the result is these phrases.
-/

namespace Oclaw.MemoryCore

open Oclaw.Lib

/-! ## §1  The query -/

/-- `char::is_alphanumeric`. Outside of ASCII it depends on the version of Unicode. -/
structure Alphanumeric : Type where
  isAlphanumeric : Char → Bool
  ascii : ∀ c, c.toNat < 128 → isAlphanumeric c = c.isAlphanum

def Alphanumeric.asciiOnly : Alphanumeric := ⟨Char.isAlphanum, fun _ _ => rfl⟩

variable (u : Alphanumeric)

def isUnicodeLetterOrDigit (c : Char) : Bool := u.isAlphanumeric c || c = '_'

/-- A token between quotes, without the quotes in it. -/
def quoted (token : List Char) : List Char :=
  let clean := token.filter (· ≠ '"')
  '"' :: (clean ++ ['"'])

def joinAnd (phrases : List (List Char)) : List Char :=
  [' ', 'A', 'N', 'D', ' '].intercalate phrases

def buildFts5Query (raw : String) : Option String :=
  let tokens := runsOf (isUnicodeLetterOrDigit u) raw.toList
  if tokens.isEmpty then none else some (String.ofList (joinAnd (tokens.map quoted)))

/-! ## §2  How FTS5 reads it -/

/-- A string, behind its opening quote. A doubled quote stands for one quote in it. -/
def readString : List Char → Option (List Char × List Char)
  | [] => none
  | '"' :: '"' :: cs => (readString cs).map (fun r => ('"' :: r.1, r.2))
  | '"' :: cs => some ([], cs)
  | c :: cs => (readString cs).map (fun r => (c :: r.1, r.2))

/-- `phrase (AND phrase)*`, and nothing else. -/
def readPhrases : ℕ → List Char → Option (List (List Char))
  | fuel + 1, '"' :: cs =>
      match readString cs with
      | some (phrase, []) => some [phrase]
      | some (phrase, ' ' :: 'A' :: 'N' :: 'D' :: ' ' :: rest) =>
          (readPhrases fuel rest).map (phrase :: ·)
      | _ => none
  | _, _ => none

def parseQuery (query : String) : Option (List (List Char)) :=
  readPhrases query.toList.length query.toList

variable {u} {c : Char} {w rest : List Char} {ws : List (List Char)} {fuel : ℕ}

theorem readString_of_noQuote (hw : '"' ∉ w) (hrest : rest.head? ≠ some '"') :
    readString (w ++ '"' :: rest) = some (w, rest) := by
  induction w with
  | nil =>
      cases rest with
      | nil => rfl
      | cons d rest =>
          have hd : d ≠ '"' := fun h => hrest (congrArg some h)
          rw [List.nil_append, readString]
          intro cs heq
          exact hd (List.cons.inj heq).1
  | cons d w ih =>
      rw [List.mem_cons, not_or] at hw
      rw [List.cons_append, readString, ih hw.2]
      · rfl
      · intro cs heq _
        exact hw.1 heq.symm
      · intro heq
        exact hw.1 heq.symm

theorem quoted_of_noQuote (hw : '"' ∉ w) : quoted w = '"' :: (w ++ ['"']) := by
  have hclean : w.filter (· ≠ '"') = w := by
    rw [List.filter_eq_self]
    intro c hc
    simpa using ne_of_mem_of_not_mem hc hw
  rw [quoted, hclean]

/-- Phrases without quotes are read back. -/
theorem readPhrases_joinAnd (hne : ws ≠ []) (hws : ∀ w ∈ ws, '"' ∉ w) (hfuel : ws.length ≤ fuel) :
    readPhrases fuel (joinAnd (ws.map quoted)) = some ws := by
  induction ws generalizing fuel with
  | nil => exact absurd rfl hne
  | cons w ws ih =>
      obtain ⟨hw, hws⟩ := List.forall_mem_cons.mp hws
      obtain ⟨fuel, rfl⟩ : ∃ m, fuel = m + 1 := ⟨fuel - 1, by simp at hfuel; omega⟩
      cases ws with
      | nil =>
          have hread := @readString_of_noQuote w [] hw (by simp)
          simp [joinAnd, quoted_of_noQuote hw, readPhrases, hread]
      | cons w' ws =>
          have hrest := @ih fuel (by simp) hws (by simpa using hfuel)
          have hjoin : joinAnd ((w :: w' :: ws).map quoted) =
              '"' :: (w ++ '"' :: (' ' :: 'A' :: 'N' :: 'D' :: ' ' ::
                joinAnd ((w' :: ws).map quoted))) := by
            simp [joinAnd, quoted_of_noQuote hw, List.intercalate]
          have hread := @readString_of_noQuote w
            (' ' :: 'A' :: 'N' :: 'D' :: ' ' :: joinAnd ((w' :: ws).map quoted)) hw (by simp)
          rw [hjoin, readPhrases, hread]
          simp only [hrest, Option.map_some]

/-! ## §3  Every input -/

theorem quote_not_word : isUnicodeLetterOrDigit u '"' = false := by
  have hascii : u.isAlphanumeric '"' = false := u.ascii '"' (by decide)
  rw [isUnicodeLetterOrDigit, hascii]
  rfl

theorem length_le_joinAnd (ws : List (List Char)) :
    ws.length ≤ (joinAnd (ws.map quoted)).length := by
  induction ws with
  | nil => exact Nat.zero_le _
  | cons w ws ih =>
      cases ws with
      | nil => simp [joinAnd, quoted]
      | cons w' ws =>
          have hjoin : joinAnd ((w :: w' :: ws).map quoted) =
              quoted w ++ ([' ', 'A', 'N', 'D', ' '] ++ joinAnd ((w' :: ws).map quoted)) := by
            simp [joinAnd, List.intercalate]
          rw [hjoin, List.length_append, List.length_append]
          simp only [List.length_cons] at ih ⊢
          omega

/-- **Full-text queries.** Nothing comes out of an input without words; otherwise the query
is the conjunction of the words in quotes, FTS5 reads just the words in it, and nothing but
the words decides it. -/
theorem buildFts5Query_spec (u : Alphanumeric) (raw : String) :
    (buildFts5Query u raw = none ↔ ∀ c ∈ raw.toList, isUnicodeLetterOrDigit u c = false) ∧
      (∀ query, buildFts5Query u raw = some query →
        ∃ tokens, MaximalRuns (isUnicodeLetterOrDigit u) raw.toList tokens ∧ tokens ≠ [] ∧
          query.toList = joinAnd (tokens.map (fun token => '"' :: (token ++ ['"']))) ∧
          parseQuery query = some tokens) ∧
      ∀ raw' tokens, MaximalRuns (isUnicodeLetterOrDigit u) raw.toList tokens →
        MaximalRuns (isUnicodeLetterOrDigit u) raw'.toList tokens →
        buildFts5Query u raw' = buildFts5Query u raw := by
  refine ⟨?_, fun query hquery => ?_, fun raw' tokens h h' => ?_⟩
  · rw [← runsOf_eq_nil_iff, buildFts5Query]
    split
    · rename_i hempty
      simpa using hempty
    · rename_i hfull
      simpa using hfull
  · have hruns := maximalRuns_runsOf (isUnicodeLetterOrDigit u) raw.toList
    rw [buildFts5Query] at hquery
    generalize runsOf (isUnicodeLetterOrDigit u) raw.toList = tokens at hruns hquery
    obtain ⟨hfull, heq⟩ := Option.ite_none_left_eq_some.mp hquery
    obtain rfl := Option.some.inj heq
    have hne : tokens ≠ [] := fun h => hfull (List.isEmpty_iff.mpr h)
    have hquote : ∀ token ∈ tokens, '"' ∉ token := by
      intro token htoken hmem
      have hword := (hruns.mem htoken).2.1 '"' hmem
      rw [quote_not_word] at hword
      cases hword
    have hmap : tokens.map quoted = tokens.map (fun token => '"' :: (token ++ ['"'])) :=
      List.map_congr_left fun token htoken => quoted_of_noQuote (hquote token htoken)
    refine ⟨tokens, hruns, hne, by rw [String.toList_ofList, hmap], ?_⟩
    rw [parseQuery, String.toList_ofList]
    exact readPhrases_joinAnd hne hquote (length_le_joinAnd tokens)
  · rw [buildFts5Query, buildFts5Query, runsOf_eq_iff.mpr h, runsOf_eq_iff.mpr h']

example : buildFts5Query .asciiOnly "say \"hello\" OR fo*" =
    some "\"say\" AND \"hello\" AND \"OR\" AND \"fo\"" := by decide

end Oclaw.MemoryCore
