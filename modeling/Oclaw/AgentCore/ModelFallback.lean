import Oclaw.AgentCore.ToolPairing
import Mathlib.Data.List.Sort

/-!
# Model fallback

`ModelChain` and `ModelFallback::execute_with_agent` of
`crates/agent-core/src/model_fallback.rs`. The loop walks along the chain and calls `run` of
the agent once for every entry. It hands the agent the input and nothing else: the model of
the entry goes to the trace, and what a failed call has done to the history stays.
-/

namespace Oclaw.AgentCore

/-! ## §1  The chain -/

inductive ProviderType : Type where
  | openAi | anthropic | ollama | google | cohere | voyage | openRouter | together | bedrock
  | qwen | volcengine | moonshot | xai | huggingFace | vllm | cloudflare | litellm | copilot
  | minimax

structure ModelChainEntry : Type where
  providerType : ProviderType
  model : String
  priority : ℤ

structure ModelChain : Type where
  entries : List ModelChainEntry
  currentIndex : ℕ

/-- What `execute_with_agent` reads of `FallbackConfig`; the delay between two attempts
changes nothing. -/
structure FallbackConfig : Type where
  enabled : Bool
  maxRetries : ℤ

namespace ModelChain

def new : ModelChain := ⟨[], 0⟩

/-- `sort_by` is stable: entries of one priority stay in the order of their insertion. -/
def addModel (c : ModelChain) (provider : ProviderType) (model : String) (priority : ℤ) :
    ModelChain :=
  { c with
    entries := (c.entries ++ [ModelChainEntry.mk provider model priority]).insertionSort
      (fun a b => b.priority ≤ a.priority) }

def current (c : ModelChain) : Option ModelChainEntry := c.entries[c.currentIndex]?

/-- Only called when there is a current entry, so that the length is positive. -/
def advance (c : ModelChain) : Bool × ModelChain :=
  if c.currentIndex < c.entries.length - 1 then
    (true, { c with currentIndex := c.currentIndex + 1 })
  else (false, c)

def reset (c : ModelChain) : ModelChain := { c with currentIndex := 0 }

def isExhausted (c : ModelChain) : Bool := decide (c.entries.length ≤ c.currentIndex)

/-- The chains that `add_model` builds, at any position. -/
inductive Built : ModelChain → Prop where
  | new : Built new
  | addModel {c} (provider : ProviderType) (model : String) (priority : ℤ) :
      Built c → Built (c.addModel provider model priority)
  | moved {c} (i : ℕ) : Built c → Built { c with currentIndex := i }

/-- The entries of a chain are in descending priority. -/
theorem Built.descending {c : ModelChain} (h : Built c) :
    c.entries.Pairwise (fun a b => b.priority ≤ a.priority) := by
  have htotal : Std.Total (fun a b : ModelChainEntry => b.priority ≤ a.priority) :=
    ⟨fun a b => Int.le_total b.priority a.priority⟩
  have htrans : IsTrans ModelChainEntry (fun a b => b.priority ≤ a.priority) :=
    ⟨fun a b c hab hbc => Int.le_trans hbc hab⟩
  induction h with
  | new => exact List.Pairwise.nil
  | addModel provider model priority _ _ => exact List.pairwise_insertionSort _ _
  | moved i _ ih => exact ih

end ModelChain

/-! ## §2  Attempts -/

variable {W : Type} (O : Outside W) (A : AgentSetup)

def allModelsFailed (attempts : ℕ) : AgentError :=
  .modelError ("All models in chain failed after " ++ toString attempts ++ " attempts")

/-- The loop of `execute_with_agent`. The fuel is the number of entries that are left. -/
def executeFrom (maxAttempts : ℤ) (input : String) :
    ℕ → ℕ → ModelChain → Live W → Except AgentError String × ModelChain × Live W
  | 0, attempts, chain, s => (.error (allModelsFailed attempts), chain, s)
  | n + 1, attempts, chain, s =>
      if chain.isExhausted = false ∧ (attempts : ℤ) < maxAttempts then
        match s.run O A input with
        | (.ok result, s) => (.ok result, chain.reset, s)
        | (.error _, s) =>
            match chain.advance with
            | (true, chain) => executeFrom maxAttempts input n (attempts + 1) chain s
            | (false, chain) => (.error (allModelsFailed (attempts + 1)), chain, s)
      else (.error (allModelsFailed attempts), chain, s)

/-- `execute_with_agent`; the product of retries and entries wraps, as in a release build. -/
def executeWithAgent (cfg : FallbackConfig) (chain : ModelChain) (input : String)
    (s : Live W) : Except AgentError String × ModelChain × Live W :=
  if cfg.enabled then
    let chain := chain.reset
    let len := Int.bmod (chain.entries.length : ℤ) 0x100000000
    let maxAttempts := Int.bmod (cfg.maxRetries * len) 0x100000000
    executeFrom O A maxAttempts input chain.entries.length 0 chain s
  else (.error (.modelError "Fallback not enabled"), chain, s)

/-- The fuel is enough: where it runs out the chain is exhausted. -/
theorem executeFrom_fuel {maxAttempts : ℤ} {input : String} : ∀ (n m attempts : ℕ)
    (chain : ModelChain) (s : Live W), chain.entries.length ≤ chain.currentIndex + n →
      executeFrom O A maxAttempts input (n + m) attempts chain s =
        executeFrom O A maxAttempts input n attempts chain s
  | 0, m, attempts, chain, s, hfuel => by
      cases m with
      | zero => rfl
      | succ m =>
          have hdone : chain.isExhausted = true := decide_eq_true hfuel
          rw [Nat.zero_add, executeFrom, executeFrom, if_neg (by simp [hdone])]
  | n + 1, m, attempts, chain, s, hfuel => by
      rw [Nat.add_right_comm, executeFrom, executeFrom]
      split
      · rcases s.run O A input with ⟨result, s'⟩
        cases result with
        | ok text => rfl
        | error e =>
            simp only
            unfold ModelChain.advance
            by_cases hmore : chain.currentIndex < chain.entries.length - 1
            · rw [if_pos hmore]
              apply executeFrom_fuel n m (attempts + 1) _ s'
              show chain.entries.length ≤ chain.currentIndex + 1 + n
              omega
            · rw [if_neg hmore]
      · rfl

/-- The agent after `k` attempts. -/
def after (input : String) (k : ℕ) (s : Live W) : Live W :=
  (fun s => (s.run O A input).2)^[k] s

/-- `k` attempts failed, and the next one returned `text`. -/
structure OkAfter (input : String) (s : Live W) (k : ℕ) (text : String) (s' : Live W) : Prop where
  failed : ∀ i, i < k → ∃ e, ((after O A input i s).run O A input).1 = .error e
  answered : ((after O A input k s).run O A input).1 = .ok text
  final : s' = after O A input (k + 1) s

/-- What a fallback should leave of the conversation: the input and one answer were
added, and each attempt asked the model of its entry. -/
structure Intact (input : String) (entries : List ModelChainEntry) (s s' : Live W) (k : ℕ) :
    Prop where
  history : ∃ m, m.role = .assistant ∧
    s'.tape.history = s.tape.history ++ [plainMessage .user input, m]
  models : ∀ i ≤ k, ∀ entry, entries[i]? = some entry → ∀ r,
    .request r ∈ (after O A input (i + 1) s).tape.log.drop
      (after O A input i s).tape.log.length → r.model = entry.model

variable {O A} {input text : String} {s s' : Live W}

theorem after_succ' (k : ℕ) :
    after O A input (k + 1) s = ((after O A input k s).run O A input).2 :=
  Function.iterate_succ_apply' _ _ _

/-- The first attempt, put in front of the rest. -/
theorem OkAfter.cons {e : AgentError} {k : ℕ} (hfirst : (s.run O A input).1 = .error e)
    (h : OkAfter O A input (s.run O A input).2 k text s') :
    OkAfter O A input s (k + 1) text s' := by
  refine ⟨?_, h.answered, h.final⟩
  intro i hi
  cases i with
  | zero => exact ⟨e, hfirst⟩
  | succ i => exact h.failed i (Nat.lt_of_succ_lt_succ hi)

/-- **The loop.** A text comes from the first attempt that did not fail. -/
theorem okAfter_of_executeFrom {maxAttempts : ℤ} : ∀ {n attempts : ℕ} {chain chain' : ModelChain}
    {s : Live W},
    executeFrom O A maxAttempts input n attempts chain s = (.ok text, chain', s') →
    ∃ k, OkAfter O A input s k text s' ∧ chain.currentIndex + k < chain.entries.length
  | 0, _, _, _, _, h => by cases h
  | n + 1, attempts, chain, chain', s, h => by
      rw [executeFrom] at h
      split at h
      · rename_i hgo
        have hleft : chain.currentIndex < chain.entries.length := by
          have := hgo.1
          simp only [ModelChain.isExhausted, decide_eq_false_iff_not] at this
          omega
        rcases hrun : s.run O A input with ⟨result, s₁⟩
        have hresult : (s.run O A input).1 = result := by rw [hrun]
        have hstate : (s.run O A input).2 = s₁ := by rw [hrun]
        rw [hrun] at h
        cases result with
        | ok text' =>
            simp only at h
            cases h
            refine ⟨0, ⟨by simp, hresult, hstate.symm⟩, hleft⟩
        | error e =>
            simp only at h
            unfold ModelChain.advance at h
            by_cases hmore : chain.currentIndex < chain.entries.length - 1
            · rw [if_pos hmore] at h
              obtain ⟨k, hok, hlt⟩ := okAfter_of_executeFrom h
              rw [← hstate] at hok
              refine ⟨k + 1, hok.cons hresult, ?_⟩
              have hlt' : chain.currentIndex + 1 + k < chain.entries.length := hlt
              omega
            · rw [if_neg hmore] at h
              cases h
      · cases h

/-! ## §3  What one attempt does -/

/-- A call of the agent has added its messages and, if it succeeded, an answer; all of its
requests ask for `model`, and an answer comes from one of them. -/
def Adds (model : String) (messages : List ChatMessage) (s : Live W)
    (out : Except AgentError String × Live W) : Prop :=
  ∃ events, out.2.tape.log = s.tape.log ++ events ∧
    (∀ r, .request r ∈ events → r.model = model) ∧
    match out.1 with
    | .ok text => (∃ r, .request r ∈ events) ∧
        out.2.tape.history = s.tape.history ++ messages ++ [assistantMessage text none]
    | .error _ => out.2.tape.history = s.tape.history ++ messages

variable {model : String} {messages : List ChatMessage}

/-- What happened before: some messages, and requests for the same model. -/
theorem Adds.after {out : Except AgentError String × Live W} {s₀ : Live W}
    (h : Adds model [] s out) {events : List AgentEvent}
    (hlog : s.tape.log = s₀.tape.log ++ events)
    (hmodel : ∀ r, .request r ∈ events → r.model = model)
    (hhistory : s.tape.history = s₀.tape.history ++ messages) : Adds model messages s₀ out := by
  obtain ⟨events', hlog', hmodel', hresult⟩ := h
  refine ⟨events ++ events', ?_, ?_, ?_⟩
  · rw [hlog', hlog, List.append_assoc]
  · intro r hr
    rcases List.mem_append.mp hr with hr | hr
    · exact hmodel r hr
    · exact hmodel' r hr
  · rw [hhistory, List.append_nil] at hresult
    revert hresult
    cases out.1 with
    | error e => exact fun h => h
    | ok text =>
        rintro ⟨⟨r, hr⟩, h⟩
        exact ⟨⟨r, List.mem_append_right _ hr⟩, h⟩

theorem record_adds (s : Live W) (m : ChatMessage) : ∃ events,
    (s.record O A m).tape.log = s.tape.log ++ events ∧
    (∀ r, .request r ∉ events) ∧ (s.record O A m).tape.history = s.tape.history ++ [m] := by
  have hhistory : (s.record O A m).tape.history = s.tape.history ++ [m] := by
    obtain ⟨saved, -, htape⟩ := @Live.record_tape W O A s m
    rw [htape, record_history]
  rcases @Live.record_log W O A s m with hlog | hlog
  · exact ⟨_, hlog, by simp, hhistory⟩
  · exact ⟨_, hlog, by simp, hhistory⟩

theorem runAttempts_adds {r : ChatRequest} (maxRetries : ℤ) : ∀ (n : ℕ)
    (lastError : Option LlmError) (s : Live W),
      Adds r.model [] s (s.runAttempts O A r maxRetries n lastError)
  | 0, lastError, s => ⟨[], (List.append_nil _).symm, by simp, (List.append_nil _).symm⟩
  | n + 1, lastError, s => by
      have hasked : ∀ r', AgentEvent.request r' ∈ [AgentEvent.request r] →
          r'.model = r.model := by
        intro r' hr'
        cases List.mem_singleton.mp hr'
        rfl
      have hrest : ∀ (s₁ : Live W) (lastError : Option LlmError),
          s₁.tape = s.tape.emit (.request r) →
          Adds r.model [] s (s₁.runAttempts O A r maxRetries n lastError) := by
        intro s₁ lastError htape
        have hlog : s₁.tape.log = s.tape.log ++ [.request r] := by
          rw [htape]
          rfl
        apply (runAttempts_adds maxRetries n lastError s₁).after hlog hasked
        rw [htape, List.append_nil]
        rfl
      rw [Live.runAttempts]
      rcases hchat : s.chat O r with ⟨resp, s₁⟩
      have htape : s₁.tape = s.tape.emit (.request r) := by
        have h := @Live.chat_tape W O s r
        rw [hchat] at h
        exact h
      cases resp with
      | error e => exact hrest s₁ (some e) htape
      | ok response =>
          simp only
          have husage := (Live.recordUsage_tape s₁ response.usage).trans htape
          generalize s₁.recordUsage response.usage = s₂ at husage
          cases response.choices with
          | nil => exact hrest s₂ lastError husage
          | cons choice rest =>
              simp only
              obtain ⟨events, hlog, hnone, hhistory⟩ :=
                record_adds (O := O) (A := A) s₂ (assistantMessage choice.content none)
              rw [husage] at hlog hhistory
              refine ⟨.request r :: events, ?_, ?_, ⟨r, List.mem_cons_self⟩, ?_⟩
              · show (s₂.record O A (assistantMessage choice.content none)).tape.log = _
                rw [hlog]
                show (s.tape.log ++ [.request r]) ++ events = _
                rw [List.append_assoc]
                rfl
              · intro r' hr'
                rcases List.mem_cons.mp hr' with heq | hr'
                · cases heq
                  rfl
                · exact absurd hr' (hnone r')
              · rw [List.append_nil]
                exact hhistory

/-- **One attempt** asks for the model of the agent's own configuration. It adds the input,
and an answer if there was one. -/
theorem run_adds (s : Live W) (input : String) :
    Adds A.config.model [plainMessage .user input] s (s.run O A input) := by
  obtain ⟨events, hlog, hnone, hhistory⟩ :=
    record_adds (O := O) (A := A) (s.setState .running) (plainMessage .user input)
  refine (runAttempts_adds (r := buildRequest A none _) _ _ none _).after hlog ?_ hhistory
  intro r hr
  exact absurd hr (hnone r)

/-! ## §4  What a fallback leaves behind -/

theorem after_history (k : ℕ) (hfailed : ∀ i, i < k →
    ∃ e, ((after O A input i s).run O A input).1 = .error e) :
    (after O A input k s).tape.history =
      s.tape.history ++ List.replicate k (plainMessage .user input) := by
  induction k with
  | zero => exact (List.append_nil _).symm
  | succ k ih =>
      obtain ⟨e, he⟩ := hfailed k (Nat.lt_succ_self k)
      obtain ⟨events, -, -, hresult⟩ := run_adds (O := O) (A := A) (after O A input k s) input
      rw [he] at hresult
      rw [after_succ', hresult, ih fun i hi => hfailed i (Nat.lt_succ_of_lt hi),
        List.append_assoc, List.replicate_succ']

/-- **The conversation after a fallback.** It has one input for every attempt. -/
theorem OkAfter.history {k : ℕ} (h : OkAfter O A input s k text s') :
    s'.tape.history = s.tape.history ++ List.replicate (k + 1) (plainMessage .user input) ++
      [assistantMessage text none] := by
  obtain ⟨events, -, -, hresult⟩ := run_adds (O := O) (A := A) (after O A input k s) input
  rw [h.answered] at hresult
  rw [h.final, after_succ', hresult.2, after_history k h.failed, List.replicate_succ']
  simp only [List.append_assoc]

/-- **Model fallback.** The entries are tried in descending priority, and a text comes from
the attempt after some number of failures. The conversation is intact exactly when the first
attempt succeeds and the first entry names the model that the agent is configured with. -/
theorem fallback_intact_iff (O : Outside W) (A : AgentSetup) (cfg : FallbackConfig)
    (chain : ModelChain) (input text : String) (s s' : Live W) (chain' : ModelChain)
    (hbuilt : chain.Built)
    (hok : executeWithAgent O A cfg chain input s = (.ok text, chain', s')) :
    chain.entries.Pairwise (fun a b => b.priority ≤ a.priority) ∧
    ∃ k, OkAfter O A input s k text s' ∧ k < chain.entries.length ∧
      (Intact O A input chain.entries s s' k ↔
        (∃ text, (s.run O A input).1 = .ok text) ∧
          chain.entries.head?.map ModelChainEntry.model = some A.config.model) := by
  refine ⟨hbuilt.descending, ?_⟩
  unfold executeWithAgent at hok
  split at hok
  · obtain ⟨k, hafter, hlt⟩ := okAfter_of_executeFrom hok
    have hk : k < chain.entries.length := by
      have := hlt
      simp only [ModelChain.reset] at this
      omega
    refine ⟨k, hafter, hk, ?_⟩
    constructor
    · rintro ⟨⟨m, -, hhistory⟩, hmodels⟩
      -- one input means one attempt
      have hzero : k = 0 := by
        have hlen := congrArg List.length (hafter.history.symm.trans hhistory)
        simp only [List.length_append, List.length_replicate, List.length_cons,
          List.length_nil] at hlen
        omega
      subst hzero
      refine ⟨⟨text, hafter.answered⟩, ?_⟩
      obtain ⟨entry, rest, hentries⟩ := List.exists_cons_of_length_pos hk
      obtain ⟨events, hlog, hmodel, hresult⟩ := run_adds (O := O) (A := A) s input
      have hanswered : (s.run O A input).1 = .ok text := hafter.answered
      rw [hanswered] at hresult
      obtain ⟨⟨r, hr⟩, -⟩ := hresult
      have hrmodel := hmodels 0 (Nat.le_refl 0) entry (by rw [hentries]; rfl) r (by
        show .request r ∈ (s.run O A input).2.tape.log.drop s.tape.log.length
        rw [hlog, List.drop_left]
        exact hr)
      rw [hentries, List.head?_cons, Option.map_some, ← hrmodel, hmodel r hr]
    · rintro ⟨⟨text', hfirst⟩, hhead⟩
      have hzero : k = 0 := by
        apply Nat.eq_zero_of_not_pos
        intro hpos
        obtain ⟨e, he⟩ := hafter.failed 0 hpos
        have hrun : (s.run O A input).1 = .error e := he
        rw [hfirst] at hrun
        cases hrun
      subst hzero
      refine ⟨⟨assistantMessage text none, rfl, ?_⟩, ?_⟩
      · rw [hafter.history, List.append_assoc]
        rfl
      · intro i hi entry hentry r hr
        obtain rfl := Nat.le_zero.mp hi
        obtain ⟨events, hlog, hmodel, -⟩ := run_adds (O := O) (A := A) s input
        have hmem : .request r ∈ (s.run O A input).2.tape.log.drop s.tape.log.length := hr
        rw [hlog, List.drop_left] at hmem
        rw [List.head?_eq_getElem?, hentry, Option.map_some] at hhead
        rw [hmodel r hmem]
        exact (Option.some.inj hhead).symm
  · cases hok

/-- A provider that fails once and then answers. -/
def failOnce : Outside ℕ :=
  { askOnce [] with
    chat := fun _ w =>
      (if w = 0 then .error (.apiError "overloaded")
        else .ok ⟨[assistantMessage "Hello!" none], none⟩, w + 1) }

/-- An agent for `gpt-4` that asks its provider once in a call. -/
def singleTry : AgentSetup :=
  { plainSetup with config := ⟨"gpt-4", none, none, none, some 1, none⟩ }

def twoModels : ModelChain :=
  (ModelChain.new.addModel .openAi "gpt-4" 20).addModel .anthropic "claude" 10

theorem twoModels_built : twoModels.Built := (ModelChain.Built.new.addModel _ _ _).addModel _ _ _

/-- The models that the provider was asked for. -/
def requestedModels (log : List AgentEvent) : List String :=
  log.filterMap fun e =>
    match e with
    | .request r => some r.model
    | _ => none

/-- The provider fails once. Both attempts ask for `gpt-4`, and the input is in the
conversation twice. -/
theorem second_attempt_repeats_input :
    ∃ s' chain', executeWithAgent failOnce singleTry ⟨true, 3⟩ twoModels "Hi"
        (Live.new none 0 none) = (.ok "Hello!", chain', s') ∧
      OkAfter failOnce singleTry "Hi" (Live.new none 0 none) 1 "Hello!" s' ∧
      s'.tape.history = [plainMessage .user "Hi", plainMessage .user "Hi",
        assistantMessage "Hello!" none] ∧
      twoModels.entries.map ModelChainEntry.model = ["gpt-4", "claude"] ∧
      requestedModels s'.tape.log = ["gpt-4", "gpt-4"] ∧
      ¬ Intact failOnce singleTry "Hi" twoModels.entries (Live.new none 0 none) s' 1 := by
  refine ⟨_, _, rfl, ⟨?_, rfl, rfl⟩, rfl, rfl, rfl, fun h => ?_⟩
  · intro i hi
    obtain rfl := Nat.lt_one_iff.mp hi
    exact ⟨_, rfl⟩
  · obtain ⟨m, -, hhistory⟩ := h.history
    have hlength : 3 = 2 := congrArg List.length hhistory
    exact absurd hlength (by decide)

/-- The provider answers at once. -/
theorem first_attempt_intact :
    twoModels.entries.Pairwise (fun a b => b.priority ≤ a.priority) ∧
    ∃ k, OkAfter (askOnce []) singleTry "Hi" (Live.new none 0 none) k ""
        (executeWithAgent (askOnce []) singleTry ⟨true, 3⟩ twoModels "Hi"
          (Live.new none 0 none)).2.2 ∧ k < twoModels.entries.length ∧
      (Intact (askOnce []) singleTry "Hi" twoModels.entries (Live.new none 0 none)
          (executeWithAgent (askOnce []) singleTry ⟨true, 3⟩ twoModels "Hi"
            (Live.new none 0 none)).2.2 k ↔
        (∃ text, ((Live.new none 0 none).run (askOnce []) singleTry "Hi").1 = .ok text) ∧
          twoModels.entries.head?.map ModelChainEntry.model = some singleTry.config.model) :=
  fallback_intact_iff (askOnce []) singleTry ⟨true, 3⟩ twoModels "Hi" "" (Live.new none 0 none)
    _ twoModels.reset twoModels_built rfl

end Oclaw.AgentCore
