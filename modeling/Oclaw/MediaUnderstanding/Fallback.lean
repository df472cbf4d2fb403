import Mathlib.Data.List.Forall2
import Oclaw.MediaUnderstanding.Transparency

/-!
# Falling back to the next provider

`MediaPipeline::ordered_providers` and `process_with_decisions`
(`crates/media-understanding/src/pipeline.rs`): each id is served by the first provider that
is registered under it, the configured ids come first, and a file that is new to the cache
gets its text from the first provider in this order that has one. Both loops over the ids
are one loop: over the configured ids and, after them, over the registered ones.
-/

namespace Oclaw.MediaUnderstanding

open Oclaw.Lib

/-! ## §1  The order of the providers -/

def firstRegistered (providers : List MediaProvider) (cap : MediaCapability) (id : String) :
    Option MediaProvider :=
  providers.find? (fun x =>
    decide (cap ∈ x.capabilities) && decide (normalizeProviderId x.id = some id))

/-- The ids of the providers of a capability, in registration order. -/
def registeredIds (providers : List MediaProvider) (cap : MediaCapability) : List String :=
  (providers.filter (fun x => decide (cap ∈ x.capabilities))).filterMap
    (fun x => normalizeProviderId x.id)

/-- The ids in the order in which they are come upon. -/
def mentionedIds (p : MediaPipeline) (cap : MediaCapability) : List String :=
  configuredProviderChain p.config cap ++ registeredIds p.providers cap

/-- The providers of a capability: of each id the first that is registered and no other,
by where their ids are first mentioned. -/
structure InFallbackOrder (p : MediaPipeline) (cap : MediaCapability)
    (out : List MediaProvider) : Prop where
  named : ∀ x ∈ out, (normalizeProviderId x.id).isSome
  once : ∀ id, out.filter (fun x => decide (normalizeProviderId x.id = some id)) =
    (firstRegistered p.providers cap id).toList
  ordered : (out.filterMap (fun x => normalizeProviderId x.id)).Pairwise
    (fun id id' => (mentionedIds p cap).idxOf id < (mentionedIds p cap).idxOf id')

variable {providers before after : List MediaProvider} {cap : MediaCapability} {o : Ordering}
variable {x : MediaProvider} {id : String} {mentioned : List String}

theorem firstRegistered_eq_some (h : firstRegistered providers cap id = some x) :
    cap ∈ x.capabilities ∧ normalizeProviderId x.id = some id := by
  have hsome := List.find?_some h
  simpa using hsome

theorem firstRegistered_isSome_iff :
    (firstRegistered providers cap id).isSome ↔ id ∈ registeredIds providers cap := by
  simp [firstRegistered, registeredIds, and_assoc]

/-- The providers that are in order after the ids that were come upon so far. -/
structure Gathered (providers : List MediaProvider) (cap : MediaCapability)
    (mentioned : List String) (o : Ordering) : Prop where
  seen : ∀ id, id ∈ o.seen ↔ id ∈ mentioned ∧ (firstRegistered providers cap id).isSome
  named : ∀ x ∈ o.out, ∃ id ∈ mentioned, normalizeProviderId x.id = some id
  once : ∀ id, o.out.filter (fun x => decide (normalizeProviderId x.id = some id)) =
    if id ∈ mentioned then (firstRegistered providers cap id).toList else []
  ordered : (o.out.filterMap (fun x => normalizeProviderId x.id)).Pairwise
    (fun id id' => mentioned.idxOf id < mentioned.idxOf id')

theorem gathered_nil : Gathered providers cap [] ⟨[], []⟩ where
  seen := by simp
  named := by simp
  once := by simp
  ordered := by simp

theorem Gathered.mem_mentioned (h : Gathered providers cap mentioned o)
    (hid : id ∈ o.out.filterMap (fun x => normalizeProviderId x.id)) : id ∈ mentioned := by
  obtain ⟨x, hx, hxid⟩ := List.mem_filterMap.mp hid
  obtain ⟨id', hid', hxid'⟩ := h.named x hx
  rw [hxid] at hxid'
  cases hxid'
  exact hid'

/-- A further mention that adds no provider. -/
theorem Gathered.skip (h : Gathered providers cap mentioned o)
    (hid : id ∈ mentioned ∨ firstRegistered providers cap id = none) :
    Gathered providers cap (mentioned ++ [id]) o := by
  have hmem : ∀ id', (firstRegistered providers cap id').isSome →
      (id' ∈ mentioned ++ [id] ↔ id' ∈ mentioned) := by
    intro id' hsome
    rw [List.mem_append, List.mem_singleton]
    refine ⟨?_, Or.inl⟩
    rintro (hold | rfl)
    · exact hold
    · rcases hid with hold | hnone
      · exact hold
      · rw [hnone] at hsome
        cases hsome
  refine ⟨?_, ?_, ?_, ?_⟩
  · intro id'
    rw [h.seen]
    exact and_congr_left (fun hsome => (hmem id' hsome).symm)
  · intro x hx
    obtain ⟨id', hid', hx⟩ := h.named x hx
    exact ⟨id', List.mem_append_left _ hid', hx⟩
  · intro id'
    rw [h.once]
    cases hfirst : firstRegistered providers cap id' with
    | none => simp
    | some y => simp only [hmem id' (by rw [hfirst]; rfl)]
  · refine h.ordered.imp_of_mem ?_
    intro id₁ id₂ h₁ h₂ hlt
    rwa [List.idxOf_append_of_mem (h.mem_mentioned h₁),
      List.idxOf_append_of_mem (h.mem_mentioned h₂)]

/-- The first mention of an id that has a provider. -/
theorem Gathered.push (h : Gathered providers cap mentioned o) (hid : id ∉ mentioned)
    (hfirst : firstRegistered providers cap id = some x) :
    Gathered providers cap (mentioned ++ [id]) ⟨o.out ++ [x], id :: o.seen⟩ := by
  have hx := (firstRegistered_eq_some hfirst).2
  refine ⟨?_, ?_, ?_, ?_⟩
  · intro id'
    rw [List.mem_cons, h.seen, List.mem_append, List.mem_singleton]
    constructor
    · rintro (rfl | ⟨hmem, hsome⟩)
      · exact ⟨Or.inr rfl, by rw [hfirst]; rfl⟩
      · exact ⟨Or.inl hmem, hsome⟩
    · rintro ⟨hmem | rfl, hsome⟩
      · exact Or.inr ⟨hmem, hsome⟩
      · exact Or.inl rfl
  · intro y hy
    rcases List.mem_append.mp hy with hy | hy
    · obtain ⟨id', hid', hy⟩ := h.named y hy
      exact ⟨id', List.mem_append_left _ hid', hy⟩
    · rw [List.mem_singleton] at hy
      exact ⟨id, by simp, by rw [hy, hx]⟩
  · intro id'
    rw [List.filter_append, h.once]
    by_cases heq : id' = id
    · subst heq
      simp [hid, hx, hfirst]
    · have hne : id ≠ id' := fun h => heq h.symm
      simp [hx, heq, hne]
  · rw [List.filterMap_append, List.pairwise_append]
    refine ⟨?_, by simp [hx], ?_⟩
    · refine h.ordered.imp_of_mem ?_
      intro id₁ id₂ h₁ h₂ hlt
      rwa [List.idxOf_append_of_mem (h.mem_mentioned h₁),
        List.idxOf_append_of_mem (h.mem_mentioned h₂)]
    · intro id₁ h₁ id₂ h₂
      have hid₂ : id₂ = id := by simpa [hx] using h₂
      have hmem := h.mem_mentioned h₁
      rw [hid₂, List.idxOf_append_of_mem hmem, List.idxOf_append_of_notMem hid]
      have hlt := List.idxOf_lt_length_of_mem hmem
      omega

theorem Gathered.takeConfigured (h : Gathered providers cap mentioned o) (id : String) :
    Gathered providers cap (mentioned ++ [id]) (takeConfigured providers cap o id) := by
  unfold MediaUnderstanding.takeConfigured
  split
  · rename_i hseen
    exact h.skip (Or.inl ((h.seen id).mp hseen).1)
  · rename_i hseen
    split
    · rename_i x hfirst
      refine h.push (fun hmem => hseen ((h.seen id).mpr ⟨hmem, ?_⟩)) hfirst
      exact Option.isSome_iff_exists.mpr ⟨x, hfirst⟩
    · rename_i hfirst
      exact h.skip (Or.inr hfirst)

theorem gathered_foldl (ids : List String) :
    Gathered providers cap ids (ids.foldl (takeConfigured providers cap) ⟨[], []⟩) := by
  induction ids using List.reverseRecOn with
  | nil => exact gathered_nil
  | append_singleton ids id ih =>
      rw [List.foldl_append]
      exact ih.takeConfigured id

/-! ### The second loop -/

theorem mem_seen_takeConfigured :
    id ∈ (takeConfigured providers cap o id).seen ↔
      id ∈ o.seen ∨ (firstRegistered providers cap id).isSome := by
  unfold takeConfigured firstRegistered
  split
  · simp [*]
  · split <;> simp [*]

theorem seen_subset_takeConfigured (id : String) :
    o.seen ⊆ (takeConfigured providers cap o id).seen := by
  unfold takeConfigured
  split
  · exact List.Subset.refl _
  · split
    · exact List.subset_cons_self _ _
    · exact List.Subset.refl _

/-- When the ids of the providers before it are seen, a provider is taken under its id as
under a configured one. -/
theorem takeRegistered_eq (hproviders : providers = before ++ x :: after)
    (hseen : registeredIds before cap ⊆ o.seen) :
    takeRegistered cap o x = (registeredIds [x] cap).foldl (takeConfigured providers cap) o := by
  unfold takeRegistered registeredIds
  by_cases hcap : cap ∈ x.capabilities
  · cases hid : normalizeProviderId x.id with
    | none => simp [hcap, hid]
    | some id =>
        by_cases hmem : id ∈ o.seen
        · simp [hcap, hid, hmem, takeConfigured]
        · have hbefore : firstRegistered before cap id = none := by
            rw [← Option.not_isSome_iff_eq_none, firstRegistered_isSome_iff]
            exact fun h => hmem (hseen h)
          have hfirst : firstRegistered providers cap id = some x := by
            rw [hproviders, firstRegistered, List.find?_append]
            unfold firstRegistered at hbefore
            rw [hbefore]
            simp [hcap, hid]
          unfold firstRegistered at hfirst
          simp [hcap, hid, hmem, takeConfigured, hfirst]
  · simp [hcap]

theorem foldl_takeRegistered (hproviders : providers = before ++ after)
    (hseen : registeredIds before cap ⊆ o.seen) :
    after.foldl (takeRegistered cap) o =
      (registeredIds after cap).foldl (takeConfigured providers cap) o := by
  induction after generalizing before o with
  | nil => rfl
  | cons x after ih =>
      have hcons : registeredIds (x :: after) cap =
          registeredIds [x] cap ++ registeredIds after cap := by
        rw [registeredIds, ← List.singleton_append, List.filter_append, List.filterMap_append]
        rfl
      have hconcat : registeredIds (before ++ [x]) cap =
          registeredIds before cap ++ registeredIds [x] cap := by
        rw [registeredIds, List.filter_append, List.filterMap_append]
        rfl
      rw [List.foldl_cons, takeRegistered_eq hproviders hseen, hcons, List.foldl_append]
      have hshift : providers = (before ++ [x]) ++ after := by
        rw [hproviders]
        simp
      refine ih hshift ?_
      -- the id of the provider, if it has one, is seen now
      rw [hconcat]
      have hsingle : registeredIds [x] cap = [] ∨ ∃ id, registeredIds [x] cap = [id] := by
        unfold registeredIds
        by_cases hcap : cap ∈ x.capabilities
        · cases hid : normalizeProviderId x.id <;> simp [hcap, hid]
        · simp [hcap]
      rcases hsingle with hx | ⟨id, hx⟩
      · rw [hx, List.append_nil]
        exact hseen
      · have hid : id ∈ registeredIds providers cap := by
          rw [hproviders, registeredIds, List.filter_append, List.filterMap_append]
          refine List.mem_append_right _ ?_
          change id ∈ registeredIds (x :: after) cap
          rw [hcons, hx]
          exact List.mem_append_left _ (List.mem_singleton_self id)
        rw [hx]
        refine List.append_subset.mpr ⟨List.Subset.trans hseen (seen_subset_takeConfigured id), ?_⟩
        refine List.cons_subset.mpr ⟨?_, List.nil_subset _⟩
        exact mem_seen_takeConfigured.mpr (Or.inr (firstRegistered_isSome_iff.mpr hid))

theorem orderedProviders_eq (p : MediaPipeline) (cap : MediaCapability) :
    orderedProviders p cap =
      ((mentionedIds p cap).foldl (takeConfigured p.providers cap) ⟨[], []⟩).out := by
  rw [orderedProviders, mentionedIds, List.foldl_append,
    foldl_takeRegistered (List.nil_append p.providers).symm (List.nil_subset _)]

theorem orderedProviders_inFallbackOrder (p : MediaPipeline) (cap : MediaCapability) :
    InFallbackOrder p cap (orderedProviders p cap) := by
  rw [orderedProviders_eq]
  have h : Gathered p.providers cap (mentionedIds p cap) _ := gathered_foldl (mentionedIds p cap)
  refine ⟨?_, ?_, h.ordered⟩
  · intro x hx
    obtain ⟨id, -, hid⟩ := h.named x hx
    rw [hid, Option.isSome_some]
  · intro id
    rw [h.once]
    split
    · rfl
    · rename_i hid
      -- an id that nothing mentions is registered by no provider
      have hnone : firstRegistered p.providers cap id = none := by
        rw [← Option.not_isSome_iff_eq_none, firstRegistered_isSome_iff]
        exact fun hmem => hid (List.mem_append_right _ hmem)
      rw [hnone, Option.toList_none]

/-! ## §2  One attachment -/

/-- The attempt that is recorded for a provider. -/
def recorded (q : Inquiry) (x : MediaProvider) : MediaModelDecision :=
  match x.attempt q.cap q.data q.mimeType with
  | .ok _ => x.decision q.cap .success none
  | .error (.unsupported reason) => x.decision q.cap .skipped (some reason)
  | .error err => x.decision q.cap .failed (some err.text)

def Fails (q : Inquiry) (x : MediaProvider) : Prop :=
  ∀ text, x.attempt q.cap q.data q.mimeType ≠ .ok text

/-- What is recorded when every provider fails. -/
def recordedAll (p : MediaPipeline) (q : Inquiry) : List MediaModelDecision :=
  if (orderedProviders p q.cap).isEmpty then
    [⟨.provider, none, none, .skipped, some s!"no provider configured for {q.cap.debug}"⟩]
  else (orderedProviders p q.cap).map (recorded q)

/-- The result and the decision for an attachment: those of the first provider that has a
text, with an attempt for each provider up to it, or an error when none has. -/
inductive FallsBack (p : MediaPipeline) (q : Inquiry) (index : ℕ) :
    ProcessSingleOutcome → Prop where
  | succeeds {before after : List MediaProvider} {x : MediaProvider} {text : String}
      (horder : orderedProviders p q.cap = before ++ x :: after)
      (hbefore : ∀ y ∈ before, Fails q y)
      (htext : x.attempt q.cap q.data q.mimeType = .ok text) :
      FallsBack p q index
        ⟨.ok ⟨q.cap.outputKind, index, text, x.id, x.modelFor q.cap⟩,
          ⟨index, (before ++ [x]).map (recorded q), some (x.decision q.cap .success none)⟩⟩
  | fails (hall : ∀ x ∈ orderedProviders p q.cap, Fails q x) (err : MediaProviderError) :
      FallsBack p q index ⟨.error err, ⟨index, recordedAll p q, none⟩⟩

variable {p : MediaPipeline} {q : Inquiry} {index : ℕ} {outcome : ProcessSingleOutcome}
variable {cache : MediaAttachmentCache} {a : Arrival} {data : Bytes} {mimeType : String}

/-- An attachment gets a text if and only if some provider in order has one. -/
theorem FallsBack.ok_iff (h : FallsBack p q index outcome) :
    (∃ output, outcome.result = .ok output) ↔
      ∃ x ∈ orderedProviders p q.cap, ∃ text, x.attempt q.cap q.data q.mimeType = .ok text := by
  cases h with
  | succeeds horder hbefore htext =>
      exact iff_of_true ⟨_, rfl⟩ ⟨_, by rw [horder]; simp, _, htext⟩
  | fails hall err =>
      refine iff_of_false ?_ ?_
      · rintro ⟨output, houtput⟩
        cases houtput
      · rintro ⟨x, hx, text, htext⟩
        exact hall x hx text htext

theorem FallsBack.index_eq (h : FallsBack p q index outcome) :
    outcome.decision.attachmentIndex = index := by
  cases h <;> rfl

/-- The loop over the providers ends at the first that has a text, or comes to the end. -/
inductive Tried (q : Inquiry) (attempts : List MediaModelDecision) :
    List MediaProvider → Option (String × MediaProvider) × Attempted → Prop where
  | found {before after : List MediaProvider} {x : MediaProvider} {text : String}
      {acc : Attempted} (hbefore : ∀ y ∈ before, Fails q y)
      (htext : x.attempt q.cap q.data q.mimeType = .ok text)
      (hattempts : acc.attempts = attempts ++ (before ++ [x]).map (recorded q)) :
      Tried q attempts (before ++ x :: after) (some (text, x), acc)
  | exhausted {ps : List MediaProvider} {acc : Attempted} (hall : ∀ x ∈ ps, Fails q x)
      (hattempts : acc.attempts = attempts ++ ps.map (recorded q)) :
      Tried q attempts ps (none, acc)

variable {ps : List MediaProvider} {attempts : List MediaModelDecision}
variable {r : Option (String × MediaProvider) × Attempted}

/-- A provider that fails is passed over with its attempt. -/
theorem Tried.cons (hx : Fails q x) (h : Tried q (attempts ++ [recorded q x]) ps r) :
    Tried q attempts (x :: ps) r := by
  cases h with
  | @found before after y text acc hbefore htext hattempts =>
      rw [← List.cons_append]
      refine Tried.found ?_ htext ?_
      · exact List.forall_mem_cons.mpr ⟨hx, hbefore⟩
      · rw [hattempts]
        simp
  | exhausted hall hattempts =>
      refine Tried.exhausted ?_ ?_
      · exact List.forall_mem_cons.mpr ⟨hx, hall⟩
      · rw [hattempts]
        simp

theorem tried_tryProviders (q : Inquiry) (ps : List MediaProvider) (acc : Attempted) :
    Tried q acc.attempts ps (tryProviders q.cap q.data q.mimeType ps acc) := by
  induction ps generalizing acc with
  | nil => exact Tried.exhausted (by simp) (by simp)
  | cons x ps ih =>
      rw [tryProviders]
      cases hattempt : x.attempt q.cap q.data q.mimeType with
      | ok text =>
          rw [← List.nil_append (x :: ps)]
          exact Tried.found (by simp) hattempt (by simp [recorded, hattempt])
      | error err =>
          have hfails : Fails q x := by
            intro text htext
            rw [hattempt] at htext
            cases htext
          refine Tried.cons hfails ?_
          simp only [recorded, hattempt]
          cases err <;> exact ih ⟨acc.attempts ++ [_], _, _⟩

theorem processSingle_fallsBack (hfile : a.file = .ok data)
    (hq : q = ⟨cap, a.attachment.mimeType, data⟩)
    (hnew : cache.get (p.contentHash data) = none) :
    FallsBack p q index (processSingle p cache index a cap).1 := by
  have htried := tried_tryProviders q (orderedProviders p q.cap) ⟨[], [], []⟩
  have hfails := @FallsBack.fails p q index
  rw [recordedAll] at hfails
  subst hq
  simp only [processSingle, hfile, hnew]
  by_cases hempty : (orderedProviders p cap).isEmpty = true
  · rw [if_pos hempty] at hfails
    rw [if_pos hempty]
    refine hfails ?_ _
    intro x hx
    rw [List.isEmpty_iff.mp hempty] at hx
    cases hx
  · rw [if_neg hempty] at hfails
    rw [if_neg hempty]
    generalize hr : tryProviders cap data a.attachment.mimeType (orderedProviders p cap)
      ⟨[], [], []⟩ = r at htried ⊢
    generalize horder : orderedProviders p cap = ps at htried
    cases htried with
    | @found before after x text acc hbefore htext hattempts =>
        simp only [hattempts, List.nil_append]
        exact FallsBack.succeeds horder hbefore htext
    | @exhausted _ acc hall hattempts =>
        simp only [hattempts, List.nil_append]
        rw [← horder]
        exact hfails (by rwa [horder]) _

/-! ## §3  The attachments of a call -/

/-- A supported and enabled attachment, with its place among those of the call. -/
structure Task : Type where
  index : ℕ
  cap : MediaCapability
  arrival : Arrival

def task? (p : MediaPipeline) (a : Arrival) (index : ℕ) : Option Task :=
  (a.attachment.capability.filter (capabilityEnabled p.config)).map (fun cap => ⟨index, cap, a⟩)

def tasks (p : MediaPipeline) (as : List Arrival) : List Task :=
  as.zipIdx.filterMap (fun e => task? p e.1 e.2)

def Task.admitted (p : MediaPipeline) (t : Task) : Bool :=
  checkSizeLimit p.config t.arrival.attachment t.cap

/-- What an attachment comes to: no result when its size is not admitted, and a text by
falling back otherwise. -/
inductive Decided (p : MediaPipeline) (t : Task) :
    Option (Except MediaProviderError MediaUnderstandingOutput) → MediaAttachmentDecision →
      Prop where
  | tooLarge (hsize : t.admitted p = false) : Decided p t none (tooLarge t.index)
  | asked {data : Bytes} {outcome : ProcessSingleOutcome} (hsize : t.admitted p = true)
      (hfile : t.arrival.file = .ok data)
      (h : FallsBack p ⟨t.cap, t.arrival.attachment.mimeType, data⟩ t.index outcome) :
      Decided p t (some outcome.result) outcome.decision

/-- The decisions about attachments under a capability. -/
def Processed.decisionsOf (out : Processed) (cap : MediaCapability) :
    List MediaAttachmentDecision :=
  (out.decisions.filter (fun d => decide (d.capability = cap))).flatMap (·.attachments)

/-- One result for each attachment whose size is admitted and one decision for each that is
supported and enabled, in order and under its own index; a result is that of falling back,
with the attempts in its decision. -/
structure FallsBackThroughout (p : MediaPipeline) (as : List Arrival) (out : Processed) :
    Prop where
  results : List.Forall₂
    (fun t result => ∃ d ∈ out.decisionsOf t.cap, Decided p t (some result) d)
    ((tasks p as).filter (Task.admitted p)) out.results
  decisions : ∀ cap, List.Forall₂
    (fun t d => d.attachmentIndex = t.index ∧ ∃ result, Decided p t result d)
    ((tasks p as).filter (fun t => decide (t.cap = cap))) (out.decisionsOf cap)

variable {as : List Arrival} {t : Task} {d : MediaAttachmentDecision} {st : Progress}
variable {result : Option (Except MediaProviderError MediaUnderstandingOutput)}

theorem Decided.index_eq (h : Decided p t result d) : d.attachmentIndex = t.index := by
  cases h with
  | tooLarge => rfl
  | asked _ _ h => exact h.index_eq

theorem tasks_concat (p : MediaPipeline) (as : List Arrival) (a : Arrival) :
    tasks p (as ++ [a]) = tasks p as ++ (task? p a as.length).toList := by
  rw [tasks, List.zipIdx_append, List.filterMap_append, tasks]
  cases h : task? p a as.length <;> simp [h]

def Progress.decisionsOf (st : Progress) : MediaCapability → List MediaAttachmentDecision
  | .image => st.imageDecisions
  | .audio => st.audioDecisions
  | .video => st.videoDecisions

/-- The loop after some attachments: what `FallsBackThroughout` says, and no other file than
theirs is in the cache. -/
structure Aligned (p : MediaPipeline) (as : List Arrival) (st : Progress) : Prop where
  cached : ∀ hash text, st.cache.get hash = some text →
    ∃ a ∈ as, ∃ data, a.file = .ok data ∧ hash = p.contentHash data
  results : List.Forall₂
    (fun t result => ∃ d ∈ st.decisionsOf t.cap, Decided p t (some result) d)
    ((tasks p as).filter (Task.admitted p)) st.results
  decisions : ∀ cap, List.Forall₂
    (fun t d => d.attachmentIndex = t.index ∧ ∃ result, Decided p t result d)
    ((tasks p as).filter (fun t => decide (t.cap = cap))) (st.decisionsOf cap)

theorem aligned_nil (n : ℕ) : Aligned p [] ⟨.new n, [], [], [], []⟩ where
  cached := by simp
  results := List.Forall₂.nil
  decisions := by rintro (_ | _ | _) <;> exact List.Forall₂.nil

theorem decisionsOf_pushCapabilityDecision (cap cap' : MediaCapability) :
    (pushCapabilityDecision st cap d).decisionsOf cap' =
      st.decisionsOf cap' ++ if cap' = cap then [d] else [] := by
  cases cap <;> cases cap' <;> simp [pushCapabilityDecision, Progress.decisionsOf]

/-- A task is done: its result, if it has one, and its decision are entered at the ends. -/
theorem Aligned.push (h : Aligned p as st) (ht : task? p a as.length = some t)
    (hd : Decided p t result d)
    (hcached : ∀ hash text, cache.get hash = some text →
      ∃ b ∈ as ++ [a], ∃ data, b.file = .ok data ∧ hash = p.contentHash data) :
    Aligned p (as ++ [a])
      (pushCapabilityDecision { st with cache := cache, results := st.results ++ result.toList }
        t.cap d) := by
  have hdecisions : ∀ cap, (pushCapabilityDecision
      { st with cache := cache, results := st.results ++ result.toList } t.cap d).decisionsOf cap =
        st.decisionsOf cap ++ if cap = t.cap then [d] else [] := by
    intro cap
    rw [decisionsOf_pushCapabilityDecision]
    cases cap <;> rfl
  have htasks : tasks p (as ++ [a]) = tasks p as ++ [t] := by
    rw [tasks_concat, ht, Option.toList_some]
  refine ⟨?_, ?_, ?_⟩
  · rwa [pushCapabilityDecision_cache]
  · rw [pushCapabilityDecision_results, htasks, List.filter_append]
    refine List.rel_append (h.results.imp ?_) ?_
    · rintro t' result' ⟨d', hd', hdecided⟩
      exact ⟨d', by rw [hdecisions]; exact List.mem_append_left _ hd', hdecided⟩
    · have hlast : d ∈ (pushCapabilityDecision
          { st with cache := cache, results := st.results ++ result.toList }
            t.cap d).decisionsOf t.cap := by
        rw [hdecisions, if_pos rfl]
        exact List.mem_append_right _ (List.mem_singleton_self d)
      cases hd with
      | tooLarge hsize => simp [hsize]
      | asked hsize hfile hfalls =>
          simp only [List.filter_cons, hsize, if_true, List.filter_nil, Option.toList_some]
          exact List.Forall₂.cons ⟨_, hlast, Decided.asked hsize hfile hfalls⟩ List.Forall₂.nil
  · intro cap
    rw [hdecisions, htasks, List.filter_append]
    refine List.rel_append (h.decisions cap) ?_
    by_cases hcap : t.cap = cap
    · simp only [List.filter_cons, hcap, decide_true, if_true, List.filter_nil]
      exact List.Forall₂.cons ⟨hd.index_eq, result, hd⟩ List.Forall₂.nil
    · have hcap' : cap ≠ t.cap := fun heq => hcap heq.symm
      simp [hcap, hcap']

/-- An attachment that is passed over. -/
theorem Aligned.skip (h : Aligned p as st) (ht : task? p a as.length = none) :
    Aligned p (as ++ [a]) st := by
  have htasks : tasks p (as ++ [a]) = tasks p as := by
    rw [tasks_concat, ht, Option.toList_none, List.append_nil]
  refine ⟨?_, by rw [htasks]; exact h.results, by rw [htasks]; exact h.decisions⟩
  intro hash text hget
  obtain ⟨b, hb, hfile⟩ := h.cached hash text hget
  exact ⟨b, List.mem_append_left _ hb, hfile⟩

/-- A file is new to the cache when no attachment before it has its content. -/
theorem Aligned.get_eq_none (h : Aligned p as st) (hinj : Function.Injective p.contentHash)
    (hdiff : ∀ b ∈ as, b.file ≠ .ok data) : st.cache.get (p.contentHash data) = none := by
  cases hget : st.cache.get (p.contentHash data) with
  | none => rfl
  | some text =>
      obtain ⟨b, hb, data', hfile, hhash⟩ := h.cached _ _ hget
      rw [← hinj hhash] at hfile
      exact absurd hfile (hdiff b hb)

theorem Aligned.processAttachment (h : Aligned p as st) (hinj : Function.Injective p.contentHash)
    (hfile : a.file = .ok data) (hdiff : ∀ b ∈ as, b.file ≠ .ok data) :
    Aligned p (as ++ [a]) (processAttachment p st as.length a) := by
  have hold : ∀ hash text, st.cache.get hash = some text →
      ∃ b ∈ as ++ [a], ∃ data, b.file = .ok data ∧ hash = p.contentHash data := by
    intro hash text hget
    obtain ⟨b, hb, hfile⟩ := h.cached hash text hget
    exact ⟨b, List.mem_append_left _ hb, hfile⟩
  unfold MediaUnderstanding.processAttachment
  cases hcap : a.attachment.capability with
  | none => exact h.skip (by rw [task?, hcap]; rfl)
  | some cap =>
      by_cases henabled : capabilityEnabled p.config cap = true
      · have ht : task? p a as.length = some ⟨as.length, cap, a⟩ := by
          simp [task?, hcap, henabled, Option.filter]
        by_cases hsize : checkSizeLimit p.config a.attachment cap = true
        · have hfalls : FallsBack p ⟨cap, a.attachment.mimeType, data⟩ as.length
              (processSingle p st.cache as.length a cap).1 :=
            processSingle_fallsBack hfile rfl (h.get_eq_none hinj hdiff)
          have hstep : Memo.Step (cacheKey p) (answer p) st.cache.get
              ⟨cap, a.attachment.mimeType, data⟩
              (processSingle p st.cache as.length a cap).2.get :=
            step_processSingle hfile rfl
          simp only [henabled, hsize, Bool.true_eq_false, if_false]
          refine h.push ht (Decided.asked hsize hfile hfalls) ?_
          intro hash text hget
          rcases hstep hash text hget with hget | ⟨-, rfl, -⟩
          · exact hold hash text hget
          · exact ⟨a, by simp, data, hfile, rfl⟩
        · rw [Bool.not_eq_true] at hsize
          simp only [henabled, hsize, Bool.true_eq_false, if_false, if_true]
          have hpush := h.push ht (Decided.tooLarge hsize) hold
          simpa only [Option.toList_none, List.append_nil] using hpush
      · rw [Bool.not_eq_true] at henabled
        simp only [henabled, if_true]
        exact h.skip (by simp [task?, hcap, henabled, Option.filter])

theorem Aligned.processFrom (h : Aligned p as st) (hinj : Function.Injective p.contentHash)
    {as' : List Arrival} (hreadable : ∀ a ∈ as', ∃ data, a.file = .ok data)
    (hdistinct : (as ++ as').Pairwise (fun a b => a.file ≠ b.file)) :
    Aligned p (as ++ as') (processFrom p st as.length as') := by
  induction as' generalizing as st with
  | nil => simpa [MediaUnderstanding.processFrom] using h
  | cons a as' ih =>
      obtain ⟨data, hfile⟩ := hreadable a List.mem_cons_self
      have hdiff : ∀ b ∈ as, b.file ≠ .ok data := by
        intro b hb
        rw [← hfile]
        exact (List.pairwise_append.mp hdistinct).2.2 b hb a List.mem_cons_self
      have hstep := h.processAttachment hinj hfile hdiff
      rw [MediaUnderstanding.processFrom, ← List.concat_append]
      rw [← List.concat_append] at hdistinct
      have hrun := ih (by simpa using hstep)
        (fun b hb => hreadable b (List.mem_cons_of_mem _ hb)) hdistinct
      simpa using hrun

@[simp] theorem capabilityDecision_capability (attachments : List MediaAttachmentDecision)
    (enabled : Bool) : (capabilityDecision cap attachments enabled).capability = cap := by
  unfold capabilityDecision
  split
  · rfl
  · split
    · rfl
    · split <;> rfl

theorem capabilityDecision_attachments {attachments : List MediaAttachmentDecision}
    {enabled : Bool} (h : enabled = false → attachments = []) :
    (capabilityDecision cap attachments enabled).attachments = attachments := by
  unfold capabilityDecision
  split
  · rename_i hdisabled
    rw [h hdisabled]
  · split
    · rfl
    · split <;> rfl

/-- Nothing is decided under a capability that is not enabled. -/
theorem Aligned.decisionsOf_eq_nil (h : Aligned p as st)
    (hcap : capabilityEnabled p.config cap = false) : st.decisionsOf cap = [] := by
  have hnone : (tasks p as).filter (fun t => decide (t.cap = cap)) = [] := by
    rw [List.filter_eq_nil_iff]
    intro t ht
    obtain ⟨e, -, he⟩ := List.mem_filterMap.mp ht
    obtain ⟨cap', hcap', rfl⟩ := Option.map_eq_some_iff.mp he
    have henabled := (Option.filter_eq_some_iff.mp hcap').2
    rw [decide_eq_true_eq]
    rintro rfl
    rw [hcap] at henabled
    cases henabled
  have hdecisions := h.decisions cap
  rwa [hnone, List.forall₂_nil_left_iff] at hdecisions

/-- What is reported under a capability is what was decided under it. -/
theorem Aligned.fallsBackThroughout {n : ℕ}
    (h : Aligned p as (MediaUnderstanding.processFrom p ⟨.new n, [], [], [], []⟩ 0 as)) :
    FallsBackThroughout p as (processWithDecisions p (.new n) as) := by
  have hdecisions : ∀ cap, (processWithDecisions p (.new n) as).decisionsOf cap =
      (MediaUnderstanding.processFrom p ⟨.new n, [], [], [], []⟩ 0 as).decisionsOf cap := by
    intro cap
    have hreport : (capabilityDecision cap _ (capabilityEnabled p.config cap)).attachments = _ :=
      capabilityDecision_attachments h.decisionsOf_eq_nil
    cases cap <;>
      simpa [processWithDecisions, Processed.decisionsOf, Progress.decisionsOf, capabilityEnabled]
        using hreport
  refine ⟨?_, ?_⟩
  · simp only [hdecisions]
    exact h.results
  · intro cap
    rw [hdecisions]
    exact h.decisions cap

/-- **Each id is served by its first provider, in order of mention; each file that is new to
the cache gets the text of the first provider in order that has one.** -/
theorem media_provider_fallback (p : MediaPipeline) :
    (∀ cap, InFallbackOrder p cap (orderedProviders p cap)) ∧
      ∀ (maxEntries : ℕ) (as : List Arrival), Function.Injective p.contentHash →
        (∀ a ∈ as, ∃ data, a.file = .ok data) →
        as.Pairwise (fun a b => a.file ≠ b.file) →
        FallsBackThroughout p as (processWithDecisions p (.new maxEntries) as) := by
  refine ⟨orderedProviders_inFallbackOrder p, ?_⟩
  intro maxEntries as hinj hreadable hdistinct
  exact ((aligned_nil maxEntries).processFrom hinj hreadable hdistinct).fallsBackThroughout

/-! ### A picture after a recording -/

/-- A provider that is asked before `google` and has no text. -/
def openai : MediaProvider where
  id := " OpenAI "
  capabilities := [.image, .audio]
  modelFor := fun _ => some "gpt-4o"
  describeImage := fun _ => .error (.api "quota exceeded")
  transcribeAudio := fun _ => .error (.unsupported "audio/wav")
  describeVideo := fun _ => .error (.unsupported "video")

def openaiThenGoogle : MediaPipeline := ⟨[google, openai], .default, hexDigest⟩

def recordingThenPicture : List Arrival :=
  [⟨⟨"/tmp/a.wav", "audio/wav", 2⟩, .ok [0x68, 0x69], 0, .asStored⟩, sent "image/png" 1]

theorem google_answers_for_openai :
    (orderedProviders openaiThenGoogle .image).map (·.id) = [" OpenAI ", "google"] ∧
      FallsBackThroughout openaiThenGoogle recordingThenPicture
        (processWithDecisions openaiThenGoogle (.new 256) recordingThenPicture) := by
  refine ⟨by decide, (media_provider_fallback openaiThenGoogle).2 256 recordingThenPicture
    hexDigest_injective ?_ ?_⟩
  · simp [recordingThenPicture, sent]
  · simp [recordingThenPicture, sent]

end Oclaw.MediaUnderstanding
