import Oclaw.Lib.HashMap
import Oclaw.Lib.Memo

/-!
# The cache of media texts

`MediaAttachmentCache` (`crates/media-understanding/src/cache.rs`): texts by the hash of
the file they were made from, the entry with the least clock reading evicted when the
cache is full.
-/

namespace Oclaw.MediaUnderstanding

open Oclaw.Lib

/-! ## §1  The cache -/

structure CacheEntry : Type where
  result : String
  createdAt : ℕ

structure MediaAttachmentCache : Type where
  entries : HashMap String CacheEntry
  maxEntries : ℕ

/-- The order in which a hash map is gone through: any arrangement of its entries. -/
structure IterationOrder : Type where
  arrange : List (String × CacheEntry) → List (String × CacheEntry)
  perm : ∀ es, (arrange es).Perm es

def IterationOrder.asStored : IterationOrder := ⟨id, fun _ => List.Perm.refl _⟩

def MediaAttachmentCache.new (maxEntries : ℕ) : MediaAttachmentCache := ⟨∅, maxEntries⟩

def MediaAttachmentCache.get (cache : MediaAttachmentCache) (hash : String) : Option String :=
  (cache.entries.lookup hash).map (·.result)

/-- `min_by_key(created_at)`: of several least entries the first. -/
def oldest : List (String × CacheEntry) → Option (String × CacheEntry)
  | [] => none
  | e :: es =>
      match oldest es with
      | none => some e
      | some m => if m.2.createdAt < e.2.createdAt then some m else some e

/-- The entries as pairs. -/
def pairs (entries : HashMap String CacheEntry) : List (String × CacheEntry) :=
  entries.entries.map (fun e => (e.1, e.2))

def evictOldest (order : IterationOrder) (entries : HashMap String CacheEntry) :
    HashMap String CacheEntry :=
  match oldest (order.arrange (pairs entries)) with
  | none => entries
  | some e => entries.erase e.1

def MediaAttachmentCache.put (cache : MediaAttachmentCache) (order : IterationOrder) (now : ℕ)
    (hash result : String) : MediaAttachmentCache :=
  let entries :=
    if cache.maxEntries ≤ cache.entries.entries.length then evictOldest order cache.entries
    else cache.entries
  { cache with entries := entries.insert hash ⟨result, now⟩ }

/-! ## §2  What is found after a put -/

variable {cache : MediaAttachmentCache} {order : IterationOrder} {now : ℕ}
variable {hash hash' result text : String}

@[simp] theorem get_new (n : ℕ) : (MediaAttachmentCache.new n).get hash = none := rfl

@[simp] theorem put_maxEntries :
    (cache.put order now hash result).maxEntries = cache.maxEntries := rfl

theorem get_put_same : (cache.put order now hash result).get hash = some result := by
  simp [MediaAttachmentCache.get, MediaAttachmentCache.put]

theorem lookup_evictOldest {entries : HashMap String CacheEntry} {e : CacheEntry}
    (h : (evictOldest order entries).lookup hash = some e) : entries.lookup hash = some e := by
  unfold evictOldest at h
  split at h
  · exact h
  · rw [HashMap.lookup_erase_eq] at h
    split at h
    · cases h
    · exact h

/-- Other entries are kept or evicted, never changed. -/
theorem get_put (hne : hash' ≠ hash)
    (h : (cache.put order now hash result).get hash' = some text) :
    cache.get hash' = some text := by
  obtain ⟨e, he, htext⟩ := Option.map_eq_some_iff.mp h
  simp only [MediaAttachmentCache.put] at he
  rw [HashMap.lookup_insert_eq, if_neg hne] at he
  refine Option.map_eq_some_iff.mpr ⟨e, ?_, htext⟩
  split at he
  · exact lookup_evictOldest he
  · exact he

/-- As long as the cache has room, nothing is evicted. -/
theorem get_put_of_room (hroom : cache.entries.entries.length < cache.maxEntries)
    (hne : hash' ≠ hash) : (cache.put order now hash result).get hash' = cache.get hash' := by
  simp [MediaAttachmentCache.get, MediaAttachmentCache.put, hne, Nat.not_le.mpr hroom]

theorem length_erase_le (entries : HashMap String CacheEntry) (k : String) :
    (entries.erase k).entries.length ≤ entries.entries.length :=
  (List.kerase_sublist k entries.entries).length_le

/-- A put adds at most one entry. -/
theorem length_put_le :
    (cache.put order now hash result).entries.entries.length ≤
      cache.entries.entries.length + 1 := by
  have hevict : (evictOldest order cache.entries).entries.length ≤
      cache.entries.entries.length := by
    unfold evictOldest
    split
    · exact le_rfl
    · exact length_erase_le _ _
  have hinsert : ∀ entries : HashMap String CacheEntry, ∀ e : CacheEntry,
      (entries.insert hash e).entries.length ≤ entries.entries.length + 1 := by
    intro entries e
    exact Nat.succ_le_succ (length_erase_le entries hash)
  simp only [MediaAttachmentCache.put]
  refine le_trans (hinsert _ _) (Nat.succ_le_succ ?_)
  split
  · exact hevict
  · exact le_rfl

end Oclaw.MediaUnderstanding
