import Mathlib.Data.List.Flatten
import Oclaw.Lib.Utf8
import Oclaw.MediaUnderstanding.Pipeline

/-!
# When the media cache cannot be noticed

Of a result, its kind and text are compared, or that it is an error. The cache is a table
of remembered answers (`Oclaw.Lib.Memo`) whose key is the content of the file alone, while
the answer depends on the capability and the MIME type too. So it cannot be noticed just
when attachments of equal content have equal answers.
-/

namespace Oclaw.MediaUnderstanding

open Oclaw.Lib

/-! ## §1  What is asked -/

/-- What is compared of a result. -/
def view (result : Except MediaProviderError MediaUnderstandingOutput) :
    Option (String × MediaOutputKind) :=
  match result with
  | .error _ => none
  | .ok output => some (output.text, output.kind)

/-- The capability of an attachment that is not skipped. -/
def screened (p : MediaPipeline) (a : Arrival) : Option MediaCapability :=
  a.attachment.capability.filter (fun cap =>
    capabilityEnabled p.config cap && checkSizeLimit p.config a.attachment cap)

/-- A request to the providers. -/
structure Inquiry : Type where
  cap : MediaCapability
  mimeType : String
  data : Bytes

/-- What is asked for an attachment that is not skipped and whose file can be read. -/
def inquiry? (p : MediaPipeline) (a : Arrival) : Option Inquiry :=
  match screened p a, a.file with
  | some cap, .ok data => some ⟨cap, a.attachment.mimeType, data⟩
  | _, _ => none

def inquiries (p : MediaPipeline) (calls : List (List Arrival)) : List Inquiry :=
  calls.flatten.filterMap (inquiry? p)

/-- The text of the first provider in order that gives one. -/
def answer (p : MediaPipeline) (q : Inquiry) : Option String :=
  (orderedProviders p q.cap).findSome? (fun provider =>
    (provider.attempt q.cap q.data q.mimeType).toOption)

def cacheKey (p : MediaPipeline) (q : Inquiry) : String := p.contentHash q.data

/-- Each attachment of a sequence of calls gets what it would get with an empty cache. -/
def Transparent (p : MediaPipeline) (maxEntries : ℕ) (calls : List (List Arrival)) : Prop :=
  (processCalls p (.new maxEntries) calls).map (List.map view) =
    calls.map (fun call => call.flatMap (fun a => (process p (.new maxEntries) [a]).map view))

/-- Where the providers have a text for an inquiry, they have the same text for every
later one about the same content. -/
def AnswersAgree (p : MediaPipeline) (calls : List (List Arrival)) : Prop :=
  (inquiries p calls).Pairwise (fun q q' =>
    q.data = q'.data → answer p q = none ∨ answer p q' = answer p q)

/-! ## §2  One attachment -/

variable {p : MediaPipeline} {cache : MediaAttachmentCache} {a : Arrival} {as : List Arrival}
variable {cap : MediaCapability} {data : Bytes} {mimeType : String} {q : Inquiry} {n i : ℕ}
variable {calls : List (List Arrival)} {tr : List Inquiry}

theorem tryProviders_text (ps : List MediaProvider) (acc : Attempted) :
    (tryProviders cap data mimeType ps acc).1.map Prod.fst =
      ps.findSome? (fun provider => (provider.attempt cap data mimeType).toOption) := by
  induction ps generalizing acc with
  | nil => rfl
  | cons provider ps ih =>
      rw [tryProviders, List.findSome?_cons]
      cases hattempt : provider.attempt cap data mimeType with
      | ok text => rfl
      | error err => cases err <;> exact ih _

/-- What the processing of a readable file can do: a text that is cached is given as it
is, a text of a provider is put into the cache, and an error leaves the cache alone. -/
theorem processSingle_cases (p : MediaPipeline) (cache : MediaAttachmentCache) (i : ℕ)
    (hfile : a.file = .ok data) (hq : q = ⟨cap, a.attachment.mimeType, data⟩) :
    (∃ text, cache.get (cacheKey p q) = some text ∧
      view (processSingle p cache i a cap).1.result = some (text, cap.outputKind) ∧
      (processSingle p cache i a cap).2 = cache) ∨
    (∃ text, cache.get (cacheKey p q) = none ∧ answer p q = some text ∧
      view (processSingle p cache i a cap).1.result = some (text, cap.outputKind) ∧
      (processSingle p cache i a cap).2 = cache.put a.order a.now (cacheKey p q) text) ∨
    (cache.get (cacheKey p q) = none ∧ answer p q = none ∧
      view (processSingle p cache i a cap).1.result = none ∧
      (processSingle p cache i a cap).2 = cache) := by
  have hkey : cacheKey p q = p.contentHash data := by rw [hq, cacheKey]
  have hanswer : answer p q =
      (tryProviders cap data a.attachment.mimeType (orderedProviders p cap)
        ⟨[], [], []⟩).1.map Prod.fst := by
    rw [tryProviders_text, hq, answer]
  rw [hkey, hanswer]
  simp only [processSingle, hfile]
  cases hget : cache.get (p.contentHash data) with
  | some cached => exact Or.inl ⟨cached, rfl, rfl, rfl⟩
  | none =>
      by_cases hempty : (orderedProviders p cap).isEmpty = true
      · rw [List.isEmpty_iff.mp hempty]
        exact Or.inr (Or.inr ⟨rfl, rfl, rfl, rfl⟩)
      · simp only [if_neg hempty]
        rcases htry : tryProviders cap data a.attachment.mimeType (orderedProviders p cap)
            ⟨[], [], []⟩ with ⟨_ | ⟨text, provider⟩, acc⟩
        · exact Or.inr (Or.inr ⟨trivial, rfl, rfl, rfl⟩)
        · exact Or.inr (Or.inl ⟨text, trivial, rfl, rfl, rfl⟩)

/-- The cache is asked before the providers. -/
theorem view_processSingle (hfile : a.file = .ok data)
    (hq : q = ⟨cap, a.attachment.mimeType, data⟩) :
    view (processSingle p cache i a cap).1.result =
      (Memo.ask (cacheKey p) (answer p) cache.get q).map (fun text => (text, cap.outputKind)) := by
  rcases processSingle_cases p cache i hfile hq with
    ⟨text, hget, hview, -⟩ | ⟨text, hget, hanswer, hview, -⟩ | ⟨hget, hanswer, hview, -⟩
  · rw [hview, Memo.ask_of_some hget]
    rfl
  · rw [hview, Memo.ask_of_none hget, hanswer]
    rfl
  · rw [hview, Memo.ask_of_none hget, hanswer]
    rfl

theorem step_processSingle (hfile : a.file = .ok data)
    (hq : q = ⟨cap, a.attachment.mimeType, data⟩) :
    Memo.Step (cacheKey p) (answer p) cache.get q (processSingle p cache i a cap).2.get := by
  intro k text htext
  rcases processSingle_cases p cache i hfile hq with
    ⟨_, _, _, hcache⟩ | ⟨text', hget, hanswer, -, hcache⟩ | ⟨_, _, _, hcache⟩
  · rw [hcache] at htext
    exact Or.inl htext
  · rw [hcache] at htext
    by_cases hk : k = cacheKey p q
    · rw [hk, get_put_same] at htext
      cases htext
      exact Or.inr ⟨hget, hk, hanswer⟩
    · exact Or.inl (get_put hk htext)
  · rw [hcache] at htext
    exact Or.inl htext

theorem keeping_processSingle (hroom : cache.entries.entries.length < cache.maxEntries)
    (hfile : a.file = .ok data) (hq : q = ⟨cap, a.attachment.mimeType, data⟩) :
    Memo.Keeping (cacheKey p) (answer p) cache.get q (processSingle p cache i a cap).2.get := by
  rcases processSingle_cases p cache i hfile hq with
    ⟨text, hget, -, hcache⟩ | ⟨text, hget, hanswer, -, hcache⟩ | ⟨-, hanswer, -, hcache⟩
  · rw [hcache]
    exact ⟨fun _ _ h => h, fun hnone => by rw [hget] at hnone; cases hnone⟩
  · rw [hcache]
    refine ⟨?_, ?_⟩
    · intro k text' h
      have hk : k ≠ cacheKey p q := by
        rintro rfl
        rw [hget] at h
        cases h
      rwa [get_put_of_room hroom hk]
    · intro _ text' h
      rw [get_put_same, ← hanswer, h]
  · rw [hcache]
    exact ⟨fun _ _ h => h, fun _ text h => by rw [hanswer] at h; cases h⟩

/-! ## §3  Sequences of attachments -/

/-- What is compared of the results for one attachment: of none that is skipped. -/
def reply (p : MediaPipeline) (cache : MediaAttachmentCache) (a : Arrival) :
    List (Option (String × MediaOutputKind)) :=
  match screened p a with
  | none => []
  | some cap => [view (processSingle p cache 0 a cap).1.result]

def nextCache (p : MediaPipeline) (cache : MediaAttachmentCache) (a : Arrival) :
    MediaAttachmentCache :=
  match screened p a with
  | none => cache
  | some cap => (processSingle p cache 0 a cap).2

def replies (p : MediaPipeline) :
    MediaAttachmentCache → List Arrival → List (List (Option (String × MediaOutputKind)))
  | _, [] => []
  | cache, a :: as => reply p cache a :: replies p (nextCache p cache a) as

/-- The index of an attachment is only reported. -/
theorem processSingle_index :
    view (processSingle p cache i a cap).1.result = view (processSingle p cache 0 a cap).1.result ∧
      (processSingle p cache i a cap).2 = (processSingle p cache 0 a cap).2 := by
  simp only [processSingle]
  split
  · exact ⟨rfl, rfl⟩
  · split
    · exact ⟨rfl, rfl⟩
    · split
      · exact ⟨rfl, rfl⟩
      · split <;> exact ⟨rfl, rfl⟩

@[simp] theorem pushCapabilityDecision_cache (st : Progress) (d : MediaAttachmentDecision) :
    (pushCapabilityDecision st cap d).cache = st.cache := by
  cases cap <;> rfl

@[simp] theorem pushCapabilityDecision_results (st : Progress) (d : MediaAttachmentDecision) :
    (pushCapabilityDecision st cap d).results = st.results := by
  cases cap <;> rfl

theorem processAttachment_eq (st : Progress) :
    (processAttachment p st i a).results.map view = st.results.map view ++ reply p st.cache a ∧
      (processAttachment p st i a).cache = nextCache p st.cache a := by
  unfold processAttachment reply nextCache screened
  cases a.attachment.capability with
  | none => simp
  | some cap =>
      by_cases henabled : capabilityEnabled p.config cap = true
      · by_cases hsize : checkSizeLimit p.config a.attachment cap = true
        · simp [Option.filter, henabled, hsize, processSingle_index (p := p) (i := i)]
        · simp [Option.filter, henabled, hsize]
      · simp [Option.filter, henabled]

theorem processFrom_eq (p : MediaPipeline) (i : ℕ) (as : List Arrival) (st : Progress) :
    (processFrom p st i as).results.map view =
        st.results.map view ++ (replies p st.cache as).flatten ∧
      (processFrom p st i as).cache = as.foldl (nextCache p) st.cache := by
  induction as generalizing st i with
  | nil => simp [processFrom, replies]
  | cons a as ih =>
      obtain ⟨hresults, hcache⟩ := processAttachment_eq (p := p) (i := i) (a := a) st
      obtain ⟨ihresults, ihcache⟩ := ih (processAttachment p st i a) (i := i + 1)
      rw [processFrom, ihresults, ihcache, hresults, hcache]
      simp [replies]

theorem view_process : (process p cache as).map view = (replies p cache as).flatten := by
  have h := (processFrom_eq p 0 as ⟨cache, [], [], [], []⟩).1
  simpa [process, processWithDecisions] using h

theorem cache_process :
    (processWithDecisions p cache as).cache = as.foldl (nextCache p) cache :=
  (processFrom_eq p 0 as ⟨cache, [], [], [], []⟩).2

theorem replies_append (as' : List Arrival) :
    replies p cache (as ++ as') =
      replies p cache as ++ replies p (as.foldl (nextCache p) cache) as' := by
  induction as generalizing cache with
  | nil => rfl
  | cons a as ih => simp [replies, ih]

/-- Whether there is a result for an attachment does not depend on the cache. -/
theorem length_reply (cache' : MediaAttachmentCache) :
    (reply p cache a).length = (reply p cache' a).length := by
  unfold reply
  cases screened p a <;> rfl

theorem length_replies (cache cache' : MediaAttachmentCache) (as : List Arrival) :
    (replies p cache as).map List.length = (as.map (reply p cache')).map List.length := by
  induction as generalizing cache with
  | nil => rfl
  | cons a as ih => rw [replies, List.map_cons, List.map_cons, List.map_cons, ih,
      length_reply cache']

/-- The calls of a sequence do not matter, only the attachments in their order. -/
theorem processCalls_eq_iff :
    (processCalls p cache calls).map (List.map view) =
        calls.map (fun call => call.flatMap (fun a => (process p (.new n) [a]).map view)) ↔
      replies p cache calls.flatten = calls.flatten.map (reply p (.new n)) := by
  induction calls generalizing cache with
  | nil => simp [processCalls, replies]
  | cons call calls ih =>
      have hsingle : (fun a => (process p (.new n) [a]).map view) = reply p (.new n) := by
        funext a
        simp [view_process, replies]
      have hcall : (process p cache call).map view = call.flatMap (reply p (.new n)) ↔
          replies p cache call = call.map (reply p (.new n)) := by
        rw [view_process, List.flatMap_def, List.eq_iff_flatten_eq]
        exact ⟨fun h => ⟨h, length_replies _ _ _⟩, fun h => h.1⟩
      have hlength : (replies p cache call).length = (call.map (reply p (.new n))).length := by
        simpa using congrArg List.length (@length_replies p cache (.new n) call)
      rw [processCalls, List.map_cons, List.map_cons, List.cons.injEq, ih, cache_process, hsingle,
        hcall, List.flatten_cons, replies_append, List.map_append]
      constructor
      · rintro ⟨hhead, htail⟩
        rw [hhead, htail]
      · intro h
        exact List.append_inj h hlength

theorem transparent_iff_replies :
    Transparent p n calls ↔
      replies p (.new n) calls.flatten = calls.flatten.map (reply p (.new n)) :=
  processCalls_eq_iff

/-! ## §4  Equal contents -/

theorem inquiry?_eq_some (h : inquiry? p a = some q) :
    ∃ cap data, screened p a = some cap ∧ a.file = .ok data ∧
      q = ⟨cap, a.attachment.mimeType, data⟩ := by
  unfold inquiry? at h
  split at h
  · rename_i cap data hscreened hfile
    cases h
    exact ⟨cap, data, hscreened, hfile, rfl⟩
  · cases h

/-- An attachment about which nothing is asked is answered alike with every cache. -/
theorem reply_of_no_inquiry (h : inquiry? p a = none) (cache cache' : MediaAttachmentCache) :
    reply p cache a = reply p cache' a ∧ nextCache p cache a = cache := by
  unfold reply nextCache
  unfold inquiry? at h
  cases hscreened : screened p a with
  | none => exact ⟨rfl, rfl⟩
  | some cap =>
      rw [hscreened] at h
      cases hfile : a.file with
      | ok data =>
          rw [hfile] at h
          cases h
      | error e => simp [processSingle, hfile]

theorem unnoticed_new : Memo.Unnoticed (cacheKey p) (answer p) (MediaAttachmentCache.new n).get q :=
  Memo.ask_of_none (get_new n)

theorem reply_eq_iff (h : inquiry? p a = some q) :
    reply p cache a = reply p (.new n) a ↔
      Memo.Unnoticed (cacheKey p) (answer p) cache.get q := by
  obtain ⟨cap, data, hscreened, hfile, hq⟩ := inquiry?_eq_some h
  simp only [reply, hscreened, view_processSingle hfile hq, List.cons.injEq, and_true]
  rw [unnoticed_new, Memo.Unnoticed]
  have hinj : Function.Injective (fun text : String => (text, cap.outputKind)) :=
    fun _ _ heq => congrArg Prod.fst heq
  exact (Option.map_injective hinj).eq_iff

theorem step_nextCache (h : inquiry? p a = some q) :
    Memo.Step (cacheKey p) (answer p) cache.get q (nextCache p cache a).get := by
  obtain ⟨cap, data, hscreened, hfile, hq⟩ := inquiry?_eq_some h
  simp only [nextCache, hscreened]
  exact step_processSingle hfile hq

theorem keeping_nextCache (hroom : cache.entries.entries.length < cache.maxEntries)
    (h : inquiry? p a = some q) :
    Memo.Keeping (cacheKey p) (answer p) cache.get q (nextCache p cache a).get := by
  obtain ⟨cap, data, hscreened, hfile, hq⟩ := inquiry?_eq_some h
  simp only [nextCache, hscreened]
  exact keeping_processSingle hroom hfile hq

/-- An attachment costs at most one entry of the cache. -/
theorem room_processSingle :
    (processSingle p cache i a cap).2.maxEntries = cache.maxEntries ∧
      (processSingle p cache i a cap).2.entries.entries.length ≤
        cache.entries.entries.length + 1 := by
  cases hfile : a.file with
  | error e =>
      simp only [processSingle, hfile]
      exact ⟨trivial, Nat.le_succ _⟩
  | ok data =>
      rcases @processSingle_cases a cap data _ p cache i hfile rfl with
        ⟨_, _, _, hcache⟩ | ⟨_, _, _, _, hcache⟩ | ⟨_, _, _, hcache⟩
      · rw [hcache]
        exact ⟨rfl, Nat.le_succ _⟩
      · rw [hcache]
        exact ⟨rfl, length_put_le⟩
      · rw [hcache]
        exact ⟨rfl, Nat.le_succ _⟩

theorem room_nextCache (p : MediaPipeline) (cache : MediaAttachmentCache) (a : Arrival) :
    (nextCache p cache a).maxEntries = cache.maxEntries ∧
      (nextCache p cache a).entries.entries.length ≤ cache.entries.entries.length + 1 := by
  unfold nextCache
  split
  · exact ⟨rfl, Nat.le_succ _⟩
  · exact room_processSingle

/-- Later inquiries agree with earlier ones of the same key. -/
abbrev Agreeing (p : MediaPipeline) (qs : List Inquiry) : Prop :=
  qs.Pairwise (Memo.Agree (cacheKey p) (answer p))

theorem agreeing_concat {qs : List Inquiry} (hqs : Agreeing p qs)
    (hq : ∀ q' ∈ qs, Memo.Agree (cacheKey p) (answer p) q' q) : Agreeing p (qs ++ [q]) := by
  refine List.pairwise_append.mpr ⟨hqs, List.pairwise_singleton _ _, ?_⟩
  intro q' hq' q'' hq''
  rw [List.mem_singleton.mp hq'']
  exact hq q' hq'

theorem agree_of_agreeing {qs qs' : List Inquiry} (h : Agreeing p (qs ++ q :: qs')) :
    ∀ q' ∈ qs, Memo.Agree (cacheKey p) (answer p) q' q :=
  fun q' hq' => (List.pairwise_append.mp h).2.2 q' hq' q List.mem_cons_self

theorem replies_of_agreeing (tr : List Inquiry)
    (run : Runs (Memo.Step (cacheKey p) (answer p)) Memo.empty tr cache.get)
    (hagree : Agreeing p (tr ++ as.filterMap (inquiry? p))) :
    replies p cache as = as.map (reply p (.new n)) := by
  induction as generalizing cache tr with
  | nil => rfl
  | cons a as ih =>
      rw [replies, List.map_cons]
      cases hask : inquiry? p a with
      | none =>
          rw [List.filterMap_cons_none hask] at hagree
          obtain ⟨hreply, hcache⟩ := reply_of_no_inquiry hask cache (.new n)
          rw [hreply, hcache, ih tr run hagree]
      | some q =>
          rw [List.filterMap_cons_some hask] at hagree
          have hreply : reply p cache a = reply p (.new n) a :=
            (reply_eq_iff hask).mpr (Memo.unnoticed_of_agree run (agree_of_agreeing hagree))
          rw [hreply, ih _ (run.snoc (step_nextCache hask)) (by simpa using hagree)]

/-- In a cache that never fills up, an answer that disagrees is noticed. -/
theorem agreeing_of_replies (tr : List Inquiry)
    (run : Runs (StepWhere (Memo.Keeping (cacheKey p) (answer p))
      (Memo.Unnoticed (cacheKey p) (answer p))) Memo.empty tr cache.get)
    (hroom : cache.entries.entries.length + as.length ≤ cache.maxEntries)
    (hagree : Agreeing p tr)
    (hreplies : replies p cache as = as.map (reply p (.new n))) :
    Agreeing p (tr ++ as.filterMap (inquiry? p)) := by
  induction as generalizing cache tr with
  | nil => simpa using hagree
  | cons a as ih =>
      rw [replies, List.map_cons, List.cons.injEq] at hreplies
      obtain ⟨hreply, hrest⟩ := hreplies
      obtain ⟨hmax, hlen⟩ := room_nextCache p cache a
      rw [List.length_cons] at hroom
      have hroom' : (nextCache p cache a).entries.entries.length + as.length ≤
          (nextCache p cache a).maxEntries := by omega
      cases hask : inquiry? p a with
      | none =>
          rw [List.filterMap_cons_none hask]
          have hcache := (reply_of_no_inquiry hask cache (.new n)).2
          rw [hcache] at hrest hroom'
          exact ih tr run hroom' hagree hrest
      | some q =>
          rw [List.filterMap_cons_some hask]
          have hunnoticed := (reply_eq_iff hask).mp hreply
          have hstep := keeping_nextCache (by omega : cache.entries.entries.length <
            cache.maxEntries) hask
          have hq := Memo.agree_of_unnoticed run hunnoticed
          have h := ih _ (run.snoc ⟨hstep, hunnoticed⟩) hroom' (agreeing_concat hagree hq) hrest
          simpa using h

/-- A hash without collisions keys the cache by the content. -/
theorem agreeing_iff (hinj : Function.Injective p.contentHash) :
    Agreeing p (inquiries p calls) ↔ AnswersAgree p calls := by
  apply List.Pairwise.iff
  intro q q'
  rw [Memo.Agree, cacheKey, cacheKey, hinj.eq_iff]
  refine imp_congr_right fun _ => ?_
  cases answer p q with
  | none => simp
  | some text => simp

theorem transparent_of_agree (hinj : Function.Injective p.contentHash)
    (h : AnswersAgree p calls) (n : ℕ) : Transparent p n calls := by
  rw [transparent_iff_replies]
  exact replies_of_agreeing [] .nil ((agreeing_iff hinj).mpr h)

theorem agree_of_transparent (hinj : Function.Injective p.contentHash)
    (hn : calls.flatten.length ≤ n) (h : Transparent p n calls) : AnswersAgree p calls := by
  rw [transparent_iff_replies] at h
  rw [← agreeing_iff hinj]
  have hroom : (MediaAttachmentCache.new n).entries.entries.length + calls.flatten.length ≤
      (MediaAttachmentCache.new n).maxEntries := by
    rwa [show (MediaAttachmentCache.new n).entries.entries.length = 0 from rfl, Nat.zero_add]
  exact agreeing_of_replies [] .nil hroom List.Pairwise.nil h

instance : Decidable (AnswersAgree p calls) := inferInstanceAs (Decidable (List.Pairwise _ _))

instance : Decidable (Transparent p n calls) := inferInstanceAs (Decidable (_ = _))

/-- The cache cannot be noticed, whatever its size, just when attachments of equal
content that reach the providers get equal texts from them. -/
theorem cache_transparent_iff (p : MediaPipeline) (hinj : Function.Injective p.contentHash)
    (calls : List (List Arrival)) :
    (∀ maxEntries, Transparent p maxEntries calls) ↔ AnswersAgree p calls :=
  ⟨fun h => agree_of_transparent hinj le_rfl (h calls.flatten.length),
    transparent_of_agree hinj⟩

/-! ## §5  A picture that is heard -/

/-- A hash without collisions that gives the bytes of `img` their SHA-256. -/
def hexDigest (data : Bytes) : String :=
  if data = [0x69, 0x6d, 0x67] then
    "b29814cf5792e684cd75d6a7fce7a67a11887e312f87ca2ac2496d81f365ff72"
  else String.ofList ('x' :: data.map Char.ofUInt8)

theorem hexDigest_injective : Function.Injective hexDigest :=
  injective_of_ne_x (c := 'b') (by simp) (by decide)

/-- A provider that describes pictures and transcribes speech. -/
def google : MediaProvider where
  id := "google"
  capabilities := [.image, .audio]
  modelFor := fun _ => none
  describeImage := fun _ => .ok "a cat"
  transcribeAudio := fun _ => .ok "hello"
  describeVideo := fun _ => .error (.unsupported "video")

def googleOnly : MediaPipeline := ⟨[google], .default, hexDigest⟩

def sent (mimeType : String) (now : ℕ) : Arrival :=
  ⟨⟨"/tmp/upload", mimeType, 3⟩, .ok [0x69, 0x6d, 0x67], now, .asStored⟩

/-- A file that is sent as a picture and then as a recording: what is said to be the
transcription is the description of the picture. -/
theorem image_text_as_transcription :
    Function.Injective googleOnly.contentHash ∧
      ¬ Transparent googleOnly 256 [[sent "image/png" 0], [sent "audio/wav" 1]] :=
  ⟨hexDigest_injective, by decide⟩

theorem same_picture_unnoticed :
    AnswersAgree googleOnly [[sent "image/png" 0], [sent "image/png" 1]] ∧
      Transparent googleOnly 256 [[sent "image/png" 0], [sent "image/png" 1]] :=
  ⟨by decide, (cache_transparent_iff googleOnly hexDigest_injective _).mpr (by decide) 256⟩

end Oclaw.MediaUnderstanding
