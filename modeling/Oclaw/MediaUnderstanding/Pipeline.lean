import Oclaw.Lib.Text
import Oclaw.MediaUnderstanding.Cache

/-!
# The media pipeline

`MediaPipeline::process_with_decisions` (`crates/media-understanding/src/pipeline.rs`):
attachments go to the providers of their capability in turn, and the first text that one
of them gives is cached by the hash of the file. Neither the capability nor the MIME type
is part of the key.
-/

namespace Oclaw.MediaUnderstanding

open Oclaw.Lib

/-! ## §1  Attachments and providers -/

inductive MediaCapability : Type where
  | image
  | audio
  | video
  deriving DecidableEq

/-- `{:?}` -/
def MediaCapability.debug : MediaCapability → String
  | .image => "Image"
  | .audio => "Audio"
  | .video => "Video"

structure MediaAttachment : Type where
  path : String
  mimeType : String
  sizeBytes : ℕ

def MediaAttachment.capability (a : MediaAttachment) : Option MediaCapability :=
  if startsWith a.mimeType "image/" then some .image
  else if startsWith a.mimeType "audio/" then some .audio
  else if startsWith a.mimeType "video/" then some .video
  else none

inductive MediaOutputKind : Type where
  | imageDescription
  | audioTranscription
  | videoDescription
  deriving DecidableEq

structure MediaUnderstandingOutput : Type where
  kind : MediaOutputKind
  attachmentIndex : ℕ
  text : String
  provider : String
  model : Option String

inductive MediaProviderError : Type where
  | unsupported (reason : String)
  | api (reason : String)
  | request (reason : String)
  | encoding (reason : String)

/-- `to_string` -/
def MediaProviderError.text : MediaProviderError → String
  | .unsupported reason => s!"unsupported capability: {reason}"
  | .api reason => s!"API error: {reason}"
  | .request reason => s!"request failed: {reason}"
  | .encoding reason => s!"encoding error: {reason}"

abbrev Bytes : Type := List UInt8

structure ImageRequest : Type where
  imageData : Bytes
  mimeType : String
  prompt : Option String

structure AudioRequest : Type where
  audioData : Bytes
  mimeType : String
  language : Option String

structure VideoRequest : Type where
  videoData : Bytes
  mimeType : String
  prompt : Option String

/-- A provider that answers a request always alike. -/
structure MediaProvider : Type where
  id : String
  capabilities : List MediaCapability
  modelFor : MediaCapability → Option String
  describeImage : ImageRequest → Except MediaProviderError String
  transcribeAudio : AudioRequest → Except MediaProviderError String
  describeVideo : VideoRequest → Except MediaProviderError String

structure MediaConfig : Type where
  imageEnabled : Bool
  audioEnabled : Bool
  videoEnabled : Bool
  maxImageSizeBytes : ℕ
  defaultImageProvider : String
  defaultAudioProvider : String
  defaultVideoProvider : String
  imageFallbackProviders : List String
  audioFallbackProviders : List String
  videoFallbackProviders : List String

def MediaConfig.default : MediaConfig where
  imageEnabled := true
  audioEnabled := true
  videoEnabled := true
  maxImageSizeBytes := 20 * 1024 * 1024
  defaultImageProvider := "openai"
  defaultAudioProvider := "openai"
  defaultVideoProvider := "google"
  imageFallbackProviders := ["anthropic", "google"]
  audioFallbackProviders := ["deepgram", "google"]
  videoFallbackProviders := []

/-- The pipeline without its cache. SHA-256 in hexadecimal stands as a parameter. -/
structure MediaPipeline : Type where
  providers : List MediaProvider
  config : MediaConfig
  contentHash : Bytes → String

/-! ## §2  The order of the providers -/

def normalizeProviderId (raw : String) : Option String :=
  let trimmed := toAsciiLowercase (trim raw)
  if trimmed = "" then none
  else if trimmed = "gemini" then some "google"
  else some trimmed

def configuredProviderChain (config : MediaConfig) : MediaCapability → List String
  | .image =>
      (config.defaultImageProvider :: config.imageFallbackProviders).filterMap normalizeProviderId
  | .audio =>
      (config.defaultAudioProvider :: config.audioFallbackProviders).filterMap normalizeProviderId
  | .video =>
      (config.defaultVideoProvider :: config.videoFallbackProviders).filterMap normalizeProviderId

/-- `out` and `seen` of `ordered_providers`. -/
structure Ordering : Type where
  out : List MediaProvider
  seen : List String

def takeConfigured (providers : List MediaProvider) (cap : MediaCapability) (o : Ordering)
    (cfgId : String) : Ordering :=
  if cfgId ∈ o.seen then o
  else
    match providers.find? (fun p =>
        decide (cap ∈ p.capabilities) && decide (normalizeProviderId p.id = some cfgId)) with
    | some p => ⟨o.out ++ [p], cfgId :: o.seen⟩
    | none => o

def takeRegistered (cap : MediaCapability) (o : Ordering) (p : MediaProvider) : Ordering :=
  if cap ∈ p.capabilities then
    match normalizeProviderId p.id with
    | none => o
    | some pid => if pid ∈ o.seen then o else ⟨o.out ++ [p], pid :: o.seen⟩
  else o

def orderedProviders (p : MediaPipeline) (cap : MediaCapability) : List MediaProvider :=
  let configured :=
    (configuredProviderChain p.config cap).foldl (takeConfigured p.providers cap) ⟨[], []⟩
  (p.providers.foldl (takeRegistered cap) configured).out

/-! ## §3  One attachment -/

inductive MediaModelDecisionType : Type where
  | provider
  | cli

inductive MediaModelDecisionOutcome : Type where
  | success
  | skipped
  | failed
  deriving DecidableEq

structure MediaModelDecision : Type where
  decisionType : MediaModelDecisionType
  provider : Option String
  model : Option String
  outcome : MediaModelDecisionOutcome
  reason : Option String

structure MediaAttachmentDecision : Type where
  attachmentIndex : ℕ
  attempts : List MediaModelDecision
  chosen : Option MediaModelDecision

structure ProcessSingleOutcome : Type where
  result : Except MediaProviderError MediaUnderstandingOutput
  decision : MediaAttachmentDecision

/-- An attachment with what its processing reads from outside: the file, the clock, and
the order in which the cache is gone through. -/
structure Arrival : Type where
  attachment : MediaAttachment
  file : Except String Bytes
  now : ℕ
  order : IterationOrder

def MediaCapability.outputKind : MediaCapability → MediaOutputKind
  | .image => .imageDescription
  | .audio => .audioTranscription
  | .video => .videoDescription

/-- One provider is asked for one file. -/
def MediaProvider.attempt (p : MediaProvider) (cap : MediaCapability) (data : Bytes)
    (mimeType : String) : Except MediaProviderError String :=
  match cap with
  | .image => p.describeImage ⟨data, mimeType, none⟩
  | .audio => p.transcribeAudio ⟨data, mimeType, none⟩
  | .video => p.describeVideo ⟨data, mimeType, none⟩

/-- `attempts`, `failures` and `unsupported` of the loop over the providers. -/
structure Attempted : Type where
  attempts : List MediaModelDecision
  failures : List String
  unsupported : List String

def MediaProvider.decision (p : MediaProvider) (cap : MediaCapability)
    (outcome : MediaModelDecisionOutcome) (reason : Option String) : MediaModelDecision :=
  ⟨.provider, some p.id, p.modelFor cap, outcome, reason⟩

/-- The loop over the providers: the text and the provider that gave it. -/
def tryProviders (cap : MediaCapability) (data : Bytes) (mimeType : String) :
    List MediaProvider → Attempted → Option (String × MediaProvider) × Attempted
  | [], acc => (none, acc)
  | p :: ps, acc =>
      match p.attempt cap data mimeType with
      | .ok text =>
          (some (text, p), { acc with attempts := acc.attempts ++ [p.decision cap .success none] })
      | .error (.unsupported reason) =>
          tryProviders cap data mimeType ps
            { acc with
              attempts := acc.attempts ++ [p.decision cap .skipped (some reason)]
              unsupported := acc.unsupported ++ [s!"{p.id}: {reason}"] }
      | .error err =>
          tryProviders cap data mimeType ps
            { acc with
              attempts := acc.attempts ++ [p.decision cap .failed (some err.text)]
              failures := acc.failures ++ [s!"{p.id}: {err.text}"] }

def joinDetails (details : List String) : String := " | ".intercalate details

/-- The error when no provider gave a text. -/
def exhausted (cap : MediaCapability) (acc : Attempted) : MediaProviderError :=
  if acc.failures.isEmpty then
    .unsupported s!"No provider succeeded for {cap.debug}: {joinDetails acc.unsupported}"
  else
    .api s!"All providers failed for {cap.debug}: {joinDetails (acc.failures ++ acc.unsupported)}"

def cacheDecision : MediaModelDecision :=
  ⟨.provider, some "cache", none, .success, some "cache hit"⟩

def processSingle (p : MediaPipeline) (cache : MediaAttachmentCache) (index : ℕ) (a : Arrival)
    (cap : MediaCapability) : ProcessSingleOutcome × MediaAttachmentCache :=
  match a.file with
  | .error e =>
      (⟨.error (.api s!"Failed to read {a.attachment.path}: {e}"), ⟨index, [], none⟩⟩, cache)
  | .ok data =>
      match cache.get (p.contentHash data) with
      | some cached =>
          (⟨.ok ⟨cap.outputKind, index, cached, "cache", none⟩,
            ⟨index, [cacheDecision], some cacheDecision⟩⟩, cache)
      | none =>
          if (orderedProviders p cap).isEmpty then
            let skipped : MediaModelDecision :=
              ⟨.provider, none, none, .skipped, some s!"no provider configured for {cap.debug}"⟩
            (⟨.error (.unsupported s!"No provider configured for {cap.debug}"),
              ⟨index, [skipped], none⟩⟩, cache)
          else
            match tryProviders cap data a.attachment.mimeType (orderedProviders p cap)
                ⟨[], [], []⟩ with
            | (some (text, provider), acc) =>
                (⟨.ok ⟨cap.outputKind, index, text, provider.id, provider.modelFor cap⟩,
                  ⟨index, acc.attempts, some (provider.decision cap .success none)⟩⟩,
                  cache.put a.order a.now (p.contentHash data) text)
            | (none, acc) => (⟨.error (exhausted cap acc), ⟨index, acc.attempts, none⟩⟩, cache)

/-! ## §4  A call -/

inductive MediaDecisionOutcome : Type where
  | success
  | skipped
  | disabled
  | noAttachment
  | scopeDeny

structure MediaCapabilityDecision : Type where
  capability : MediaCapability
  outcome : MediaDecisionOutcome
  attachments : List MediaAttachmentDecision

def capabilityEnabled (config : MediaConfig) : MediaCapability → Bool
  | .image => config.imageEnabled
  | .audio => config.audioEnabled
  | .video => config.videoEnabled

def checkSizeLimit (config : MediaConfig) (a : MediaAttachment) : MediaCapability → Bool
  | .image => decide (a.sizeBytes ≤ config.maxImageSizeBytes)
  | .audio => true
  | .video => true

/-- What a call has come to between two attachments. -/
structure Progress : Type where
  cache : MediaAttachmentCache
  results : List (Except MediaProviderError MediaUnderstandingOutput)
  imageDecisions : List MediaAttachmentDecision
  audioDecisions : List MediaAttachmentDecision
  videoDecisions : List MediaAttachmentDecision

def pushCapabilityDecision (st : Progress) (cap : MediaCapability)
    (decision : MediaAttachmentDecision) : Progress :=
  match cap with
  | .image => { st with imageDecisions := st.imageDecisions ++ [decision] }
  | .audio => { st with audioDecisions := st.audioDecisions ++ [decision] }
  | .video => { st with videoDecisions := st.videoDecisions ++ [decision] }

def tooLarge (index : ℕ) : MediaAttachmentDecision :=
  ⟨index,
    [⟨.provider, none, none, .skipped, some "maxBytes: attachment exceeds configured size limit"⟩],
    none⟩

def processAttachment (p : MediaPipeline) (st : Progress) (index : ℕ) (a : Arrival) : Progress :=
  match a.attachment.capability with
  | none => st
  | some cap =>
      if capabilityEnabled p.config cap = false then st
      else if checkSizeLimit p.config a.attachment cap = false then
        pushCapabilityDecision st cap (tooLarge index)
      else
        let processed := processSingle p st.cache index a cap
        pushCapabilityDecision
          { st with cache := processed.2, results := st.results ++ [processed.1.result] }
          cap processed.1.decision

/-- The loop over the attachments. -/
def processFrom (p : MediaPipeline) (st : Progress) : ℕ → List Arrival → Progress
  | _, [] => st
  | index, a :: as => processFrom p (processAttachment p st index a) (index + 1) as

/-- `append_capability_decision_with_state` -/
def capabilityDecision (cap : MediaCapability) (attachments : List MediaAttachmentDecision)
    (enabled : Bool) : MediaCapabilityDecision :=
  if enabled = false then ⟨cap, .disabled, []⟩
  else if attachments.isEmpty then ⟨cap, .noAttachment, attachments⟩
  else if attachments.any (fun d => d.chosen.any (fun c => c.outcome = .success)) then
    ⟨cap, .success, attachments⟩
  else ⟨cap, .skipped, attachments⟩

/-- The results of a call, its decisions, and the cache it leaves. -/
structure Processed : Type where
  results : List (Except MediaProviderError MediaUnderstandingOutput)
  decisions : List MediaCapabilityDecision
  cache : MediaAttachmentCache

def processWithDecisions (p : MediaPipeline) (cache : MediaAttachmentCache)
    (arrivals : List Arrival) : Processed :=
  let st := processFrom p ⟨cache, [], [], [], []⟩ 0 arrivals
  ⟨st.results,
    [capabilityDecision .image st.imageDecisions p.config.imageEnabled,
      capabilityDecision .audio st.audioDecisions p.config.audioEnabled,
      capabilityDecision .video st.videoDecisions p.config.videoEnabled],
    st.cache⟩

def process (p : MediaPipeline) (cache : MediaAttachmentCache) (arrivals : List Arrival) :
    List (Except MediaProviderError MediaUnderstandingOutput) :=
  (processWithDecisions p cache arrivals).results

/-- One call after the other, each with the cache that the one before it left. -/
def processCalls (p : MediaPipeline) :
    MediaAttachmentCache → List (List Arrival) →
      List (List (Except MediaProviderError MediaUnderstandingOutput))
  | _, [] => []
  | cache, call :: calls =>
      process p cache call :: processCalls p (processWithDecisions p cache call).cache calls

end Oclaw.MediaUnderstanding
