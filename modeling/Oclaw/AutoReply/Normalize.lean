import Oclaw.AutoReply.BlockPipeline
import Oclaw.Lib.Laced

/-!
# Normalizing replies

`crates/auto-reply/src/normalize.rs` and `tokens.rs`: before delivery the heartbeat tokens of
a reply are cut out, once and from left to right, and a reply that is the silent token is
dropped. What is cut out can bring both tokens about.
-/

namespace Oclaw.AutoReply

open Oclaw.Lib

/-! ## §1  Tokens -/

def silentReplyToken : String := "[[SILENT]]"

def heartbeatToken : String := "[[HEARTBEAT]]"

def isSilent (text : String) : Bool := trim text = silentReplyToken

/-- `none` when nothing remains. -/
def stripHeartbeat (text : String) : Option String :=
  let cleaned := replace text heartbeatToken ""
  let trimmed := trim cleaned
  if trimmed.isEmpty then none else some trimmed

/-! ## §2  Normalizing -/

structure NormalizeOptions : Type where
  stripSilent : Bool
  stripHeartbeat : Bool
  skipEmpty : Bool

def NormalizeOptions.defaultOutbound : NormalizeOptions := ⟨true, true, true⟩

section Model

variable {V : Type}

def hasMedia (payload : ReplyPayload V) : Bool :=
  payload.mediaUrl.isSome || payload.mediaUrls.any (fun urls => !urls.isEmpty) ||
    payload.channelData.isSome

/-- `none` when the payload should be dropped. -/
def normalizeReplyPayload (payload : ReplyPayload V) (opts : NormalizeOptions) :
    Option (ReplyPayload V) :=
  if opts.stripSilent && payload.text.any isSilent then none
  else
    let text := if opts.stripHeartbeat then payload.text.bind stripHeartbeat else payload.text
    if opts.skipEmpty && text.all String.isEmpty && !hasMedia payload then none
    else some { payload with text := text }

/-- What a normalized reply should be: without the heartbeat token, not silent, not empty
unless it has media, and normal. -/
structure Normal (p : ReplyPayload V) : Prop where
  heartbeat : ∀ text ∈ p.text, ¬ heartbeatToken.toList <:+: text.toList
  silent : ∀ text ∈ p.text, isSilent text = false
  full : (∀ text ∈ p.text, text = "") → hasMedia p = true
  again : normalizeReplyPayload p .defaultOutbound = some p

def Normalizes (payload : ReplyPayload V) : Prop :=
  ∀ p, normalizeReplyPayload payload .defaultOutbound = some p → Normal p

/-- The text is the silent token, up to heartbeat tokens in it and around it and to
whitespace. -/
def SilentLaced (text : List Char) : Prop :=
  ∃ q r qs, text = laced heartbeatToken.toList q (r :: qs) ∧
    trimChars (q ++ (r :: qs).flatten) = silentReplyToken.toList

/-! ## §3  The tokens -/

variable {payload p : ReplyPayload V} {text : String}

theorem unbordered_heartbeat : Unbordered heartbeatToken.toList :=
  unbordered_of_inits (by decide) (by decide)

theorem trimmed_heartbeat : Trimmed heartbeatToken.toList := by
  constructor
  · rintro c ⟨⟩
    decide
  · rintro c ⟨⟩
    decide

theorem heartbeat_notIn_silent : FreeOf heartbeatToken.toList silentReplyToken.toList :=
  FreeOf.of_length (by decide)

theorem isSilent_iff : isSilent text = true ↔ trimChars text.toList = silentReplyToken.toList := by
  rw [isSilent, decide_eq_true_iff, trim, ← String.toList_inj, String.toList_ofList]

/-- The text without its heartbeat tokens. -/
def cleaned (text : String) : List Char :=
  trimChars (replaceAux heartbeatToken.toList [] 0 text.toList)

theorem stripHeartbeat_eq : stripHeartbeat text =
    if cleaned text = [] then none else some (String.ofList (cleaned text)) := by
  have htrim : trim (replace text heartbeatToken "") = String.ofList (cleaned text) := by
    rw [trim, replace, String.toList_ofList]
    rfl
  have hempty : (String.ofList (cleaned text)).isEmpty = true ↔ cleaned text = [] := by
    rw [String.isEmpty_iff, ← String.toList_inj, String.toList_ofList]
    rfl
  rw [stripHeartbeat, htrim]
  by_cases h : cleaned text = []
  · rw [if_pos h, if_pos (hempty.mpr h)]
  · rw [if_neg h, if_neg (fun h' => h (hempty.mp h'))]

theorem stripHeartbeat_eq_some {rest : String} (h : stripHeartbeat text = some rest) :
    rest.toList = cleaned text ∧ rest.toList ≠ [] := by
  rw [stripHeartbeat_eq] at h
  obtain ⟨hne, heq⟩ := Option.ite_none_left_eq_some.mp h
  rw [← Option.some.inj heq, String.toList_ofList]
  exact ⟨rfl, hne⟩

theorem trimChars_cleaned (text : String) : trimChars (cleaned text) = cleaned text :=
  trimChars_of_trimmed (trimmed_trimChars _)

/-- A heartbeat token remains just where one was interrupted. -/
theorem heartbeat_cleaned_iff : heartbeatToken.toList <:+: cleaned text ↔
    Interrupted heartbeatToken.toList text.toList := by
  rw [cleaned, isInfix_trimChars_iff (by decide) trimmed_heartbeat,
    infix_replaceAux_iff unbordered_heartbeat]

/-- The silent token remains of what is laced with heartbeat tokens. -/
theorem silent_cleaned_iff (hloud : isSilent text = false) :
    cleaned text = silentReplyToken.toList ↔ SilentLaced text.toList := by
  constructor
  · intro hsilent
    obtain ⟨q, qs, htext, hfree⟩ := exists_laced unbordered_heartbeat.1 text.toList
    rw [cleaned, htext, replaceAux_laced unbordered_heartbeat hfree] at hsilent
    cases qs with
    | nil =>
        rw [laced_nil] at htext
        rw [List.flatten_nil, List.append_nil, ← htext, ← isSilent_iff, hloud] at hsilent
        cases hsilent
    | cons r qs => exact ⟨q, r, qs, htext, hsilent⟩
  · rintro ⟨q, r, qs, htext, hsilent⟩
    have hwhole : FreeOf heartbeatToken.toList (q ++ (r :: qs).flatten) := by
      intro hpart
      rw [← isInfix_trimChars_iff (by decide) trimmed_heartbeat, hsilent] at hpart
      exact heartbeat_notIn_silent hpart
    have hfree : ∀ s ∈ q :: r :: qs, FreeOf heartbeatToken.toList s := by
      intro s hs
      have hpart := List.infix_of_mem_flatten hs
      rw [List.flatten_cons] at hpart
      exact hwhole.of_part hpart
    rw [cleaned, htext, replaceAux_laced unbordered_heartbeat hfree, hsilent]

/-- A silent text has no heartbeat token, whole or interrupted. -/
theorem plain_of_isSilent (h : isSilent text = true) :
    ¬ Interrupted heartbeatToken.toList text.toList ∧ ¬ SilentLaced text.toList := by
  have hfree : FreeOf heartbeatToken.toList text.toList := by
    intro hpart
    rw [← isInfix_trimChars_iff (by decide) trimmed_heartbeat, isSilent_iff.mp h] at hpart
    exact heartbeat_notIn_silent hpart
  constructor
  · intro hi
    have hocc := infix_replaceAux_of_interrupted unbordered_heartbeat hi
    rw [replaceAux_of_freeOf hfree] at hocc
    exact hfree hocc
  · rintro ⟨q, r, qs, htext, -⟩
    apply hfree
    rw [htext, laced_cons]
    exact ⟨q, laced heartbeatToken.toList r qs, List.append_assoc ..⟩

/-! ## §4  Payloads -/

theorem normalize_none (h : payload.text = none) :
    normalizeReplyPayload payload .defaultOutbound =
      if hasMedia payload then some payload else none := by
  have hsame : { payload with text := none } = payload := by rw [← h]
  cases hmedia : hasMedia payload with
  | true | false =>
      simp [normalizeReplyPayload, NormalizeOptions.defaultOutbound, h, hmedia, hsame]

theorem normalize_silent (h : payload.text = some text) (hsilent : isSilent text = true) :
    normalizeReplyPayload payload .defaultOutbound = none := by
  simp [normalizeReplyPayload, NormalizeOptions.defaultOutbound, h, hsilent]

theorem normalize_loud (h : payload.text = some text) (hloud : isSilent text = false) :
    normalizeReplyPayload payload .defaultOutbound =
      match stripHeartbeat text with
      | some rest => some { payload with text := some rest }
      | none => if hasMedia payload then some { payload with text := none } else none := by
  cases hstrip : stripHeartbeat text with
  | none =>
      cases hmedia : hasMedia payload with
      | true | false =>
          simp [normalizeReplyPayload, NormalizeOptions.defaultOutbound, h, hloud, hstrip, hmedia]
  | some rest =>
      have hfull : rest.isEmpty = false := by
        have hne := (stripHeartbeat_eq_some hstrip).2
        rw [← Bool.not_eq_true, String.isEmpty_iff]
        rintro rfl
        exact hne rfl
      simp [normalizeReplyPayload, NormalizeOptions.defaultOutbound, h, hloud, hstrip, hfull]

theorem normal_of_none (h : p.text = none) (hmedia : hasMedia p = true) : Normal p := by
  refine ⟨?_, ?_, fun _ => hmedia, by rw [normalize_none h, if_pos hmedia]⟩
  · intro text htext
    rw [h] at htext
    cases htext
  · intro text htext
    rw [h] at htext
    cases htext

/-- A text that was stripped is normal when neither token is there. -/
theorem normal_iff {rest : String} (hp : p.text = some rest)
    (hstrip : stripHeartbeat text = some rest) :
    Normal p ↔ ¬ heartbeatToken.toList <:+: rest.toList ∧ isSilent rest = false := by
  obtain ⟨hrest, hne⟩ := stripHeartbeat_eq_some hstrip
  constructor
  · exact fun h => ⟨h.heartbeat rest hp, h.silent rest hp⟩
  · rintro ⟨hfree, hloud⟩
    have hsame : stripHeartbeat rest = some rest := by
      have hclean : cleaned rest = rest.toList := by
        rw [cleaned, replaceAux_of_freeOf hfree, hrest, trimChars_cleaned]
      rw [stripHeartbeat_eq, hclean, if_neg hne, String.ofList_toList]
    refine ⟨?_, ?_, fun hempty => ?_, ?_⟩
    · intro text htext
      rw [hp] at htext
      cases htext
      exact hfree
    · intro text htext
      rw [hp] at htext
      cases htext
      exact hloud
    · rw [hempty rest hp] at hne
      exact absurd rfl hne
    · rw [normalize_loud hp hloud, hsame]
      simp only [← hp]

/-- **Normalizing** gives a normal reply just when no heartbeat token interrupts another one
or the silent token. -/
theorem normalizes_iff (payload : ReplyPayload V) :
    Normalizes payload ↔ ∀ text ∈ payload.text,
      ¬ Interrupted heartbeatToken.toList text.toList ∧ ¬ SilentLaced text.toList := by
  cases htext : payload.text with
  | none =>
      refine iff_of_true (fun p hp => ?_) (by simp)
      rw [normalize_none htext] at hp
      obtain ⟨hmedia, heq⟩ := Option.ite_none_right_eq_some.mp hp
      obtain rfl := Option.some.inj heq
      exact normal_of_none htext hmedia
  | some text =>
      have hone : (∀ t ∈ some text, ¬ Interrupted heartbeatToken.toList t.toList ∧
            ¬ SilentLaced t.toList) ↔
          ¬ Interrupted heartbeatToken.toList text.toList ∧ ¬ SilentLaced text.toList := by simp
      rw [hone]
      cases hsilent : isSilent text with
      | true =>
          refine iff_of_true (fun p hp => ?_) (plain_of_isSilent hsilent)
          rw [normalize_silent htext hsilent] at hp
          cases hp
      | false =>
          rw [← heartbeat_cleaned_iff, ← silent_cleaned_iff hsilent]
          cases hstrip : stripHeartbeat text with
          | none =>
              -- no text is left, and neither token in it
              have hempty : cleaned text = [] := by
                rw [stripHeartbeat_eq] at hstrip
                by_contra hne
                rw [if_neg hne] at hstrip
                cases hstrip
              refine iff_of_true (fun p hp => ?_) ?_
              · rw [normalize_loud htext hsilent, hstrip] at hp
                obtain ⟨hmedia, heq⟩ := Option.ite_none_right_eq_some.mp hp
                obtain rfl := Option.some.inj heq
                exact normal_of_none rfl hmedia
              · rw [hempty]
                exact ⟨fun hpart => absurd (List.infix_nil.mp hpart) (by decide), by decide⟩
          | some rest =>
              obtain ⟨hrest, -⟩ := stripHeartbeat_eq_some hstrip
              have hrestLoud : isSilent rest = false ↔
                  ¬ rest.toList = silentReplyToken.toList := by
                rw [← Bool.not_eq_true, isSilent_iff, hrest, trimChars_cleaned]
              rw [Normalizes, normalize_loud htext hsilent, hstrip, ← hrest, ← hrestLoud]
              simp only [Option.some.injEq, forall_eq']
              exact normal_iff rfl hstrip

end Model

/-- Cutting out one heartbeat token puts another one together. -/
theorem not_normalizes_nested :
    normalizeReplyPayload (V := ℕ) { text := some "[[HEART[[HEARTBEAT]]BEAT]]" }
        .defaultOutbound = some { text := some "[[HEARTBEAT]]" } ∧
      ¬ ∀ payload : ReplyPayload ℕ, Normalizes payload := by
  have heq : normalizeReplyPayload (V := ℕ) { text := some "[[HEART[[HEARTBEAT]]BEAT]]" }
      .defaultOutbound = some { text := some "[[HEARTBEAT]]" } := by decide
  exact ⟨heq, fun h => (h _ _ heq).heartbeat "[[HEARTBEAT]]" rfl (List.infix_refl _)⟩

end Oclaw.AutoReply
