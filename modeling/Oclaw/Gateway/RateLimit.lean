import Mathlib.Algebra.Order.Ring.Int
import Oclaw.Lib.HashMap
import Oclaw.Lib.IpAddr

/-!
# Rate limits of the HTTP server

`crates/gateway-core/src/http/rate_limit.rs`: a window of request times for each address.
The lock is held while a request is judged, so requests are served one after the other;
the clock is read under the lock and never goes back. An `Instant` is a number of
nanoseconds, on a clock that reaches back as far as the window.
-/

namespace Oclaw.Gateway.RateLimit

open Oclaw.Lib (HashMap IpAddr Ipv4Addr)

/-! ## §1  The layer -/

abbrev Instant : Type := ℤ

/-- `Duration::from_secs` -/
def fromSecs (secs : ℕ) : ℤ := secs * 1000000000

def isLoopback : IpAddr → Bool
  | .v4 v => v.isLoopback
  | .v6 v => v.isLoopback

structure RateLimitLayer : Type where
  maxRequests : ℕ
  windowSecs : ℕ

structure SlidingWindowState : Type where
  windows : HashMap IpAddr (List Instant)

def SlidingWindowState.new : SlidingWindowState := ⟨∅⟩

/-- A request: the address of the peer, if the connection tells it, and when the clock is
read for it. -/
structure Request : Type where
  ip : Option IpAddr
  now : Instant

inductive Served : Type where
  | forwarded
  | tooManyRequests
deriving DecidableEq

/-- Periodically prune addresses with no recent requests. -/
def pruneIdle (windows : HashMap IpAddr (List Instant)) : HashMap IpAddr (List Instant) :=
  if windows.entries.length > 10000 then windows.retain (fun _ v => !v.isEmpty) else windows

namespace RateLimitLayer

variable (layer : RateLimitLayer)

/-- What is not after this time does not count at `now`. -/
def cutoff (now : Instant) : Instant := now - fromSecs layer.windowSecs

def call (s : SlidingWindowState) (req : Request) : SlidingWindowState × Served :=
  match req.ip with
  | none => (s, .forwarded)
  | some ip =>
      if isLoopback ip then (s, .forwarded)
      else
        let entries := ((s.windows.lookup ip).getD []).filter (layer.cutoff req.now < ·)
        if entries.length ≥ layer.maxRequests then
          (⟨s.windows.insert ip entries⟩, .tooManyRequests)
        else (⟨pruneIdle (s.windows.insert ip (entries ++ [req.now]))⟩, .forwarded)

/-- Serve a sequence of requests, with a log of how each was served. -/
def run (reqs : List Request) : SlidingWindowState × List (Request × Served) :=
  reqs.foldl (fun x req => ((layer.call x.1 req).1, x.2 ++ [(req, (layer.call x.1 req).2)]))
    (.new, [])

/-- How a request is served after some others. -/
def served (before : List Request) (req : Request) : Served :=
  (layer.call (layer.run before).1 req).2

/-- The requests of an address that were admitted. -/
def admitted (ip : IpAddr) (reqs : List Request) : List Request :=
  ((layer.run reqs).2.filter (fun x => x.1.ip = some ip ∧ x.2 = .forwarded)).map Prod.fst

/-- Those of them within the window that ends now. -/
def admittedWithin (ip : IpAddr) (reqs : List Request) (now : Instant) : List Request :=
  (layer.admitted ip reqs).filter (fun req => layer.cutoff now < req.now)

end RateLimitLayer

/-! ## §2  One request -/

section

variable {layer : RateLimitLayer} {s : SlidingWindowState} {req : Request} {ip ip' : IpAddr}
variable {now : Instant} {before reqs : List Request} {ts : List Instant}

/-- The times that are stored for an address. -/
def SlidingWindowState.stored (s : SlidingWindowState) (ip : IpAddr) : List Instant :=
  (s.windows.lookup ip).getD []

/-- An address without an entry stands as one with an empty list. -/
theorem stored_pruneIdle (windows : HashMap IpAddr (List Instant)) :
    SlidingWindowState.stored ⟨pruneIdle windows⟩ ip = SlidingWindowState.stored ⟨windows⟩ ip := by
  unfold SlidingWindowState.stored pruneIdle
  split
  · rw [HashMap.lookup_retain]
    cases windows.lookup ip with
    | none => rfl
    | some v => cases v <;> rfl
  · rfl

theorem stored_insert (windows : HashMap IpAddr (List Instant)) (ts : List Instant) :
    SlidingWindowState.stored ⟨windows.insert ip' ts⟩ ip =
      if ip = ip' then ts else SlidingWindowState.stored ⟨windows⟩ ip := by
  unfold SlidingWindowState.stored
  rw [HashMap.lookup_insert_eq]
  split <;> rfl

/-- **Spec of a call.** It is judged by the stored times of its address that are within
the window, keeps those, and adds its own time if it is admitted. -/
theorem call_spec (hip : req.ip = some ip) (hfar : isLoopback ip = false) :
    ((layer.call s req).2 = .forwarded ↔
      ((s.stored ip).filter (layer.cutoff req.now < ·)).length < layer.maxRequests) ∧
    ∀ ip', (layer.call s req).1.stored ip' =
      if ip' = ip then (s.stored ip).filter (layer.cutoff req.now < ·) ++
        (if (layer.call s req).2 = .forwarded then [req.now] else [])
      else s.stored ip' := by
  unfold RateLimitLayer.call
  simp only [hip, hfar, Bool.false_eq_true, if_false]
  rw [← SlidingWindowState.stored]
  split
  · rename_i hfull
    refine ⟨iff_of_false (by simp) (Nat.not_lt_of_ge hfull), fun ip' => ?_⟩
    rw [stored_insert, if_neg (by simp : ¬ Served.tooManyRequests = .forwarded), List.append_nil]
  · rename_i hroom
    refine ⟨iff_of_true rfl (Nat.lt_of_not_ge hroom), fun ip' => ?_⟩
    rw [stored_pruneIdle, stored_insert, if_pos rfl]

/-- A request without an address, or from this machine, leaves no trace. -/
theorem call_exempt (h : ∀ ip, req.ip = some ip → isLoopback ip = true) :
    layer.call s req = (s, .forwarded) := by
  unfold RateLimitLayer.call
  split
  · rfl
  · rename_i ip hip
    exact if_pos (h ip hip)

/-! ## §3  The log of a sequence of requests -/

theorem run_concat (reqs : List Request) (req : Request) :
    layer.run (reqs ++ [req]) = ((layer.call (layer.run reqs).1 req).1,
      (layer.run reqs).2 ++ [(req, layer.served reqs req)]) := by
  simp [RateLimitLayer.run, RateLimitLayer.served]

theorem admitted_concat (reqs : List Request) (req : Request) :
    layer.admitted ip (reqs ++ [req]) = layer.admitted ip reqs ++
      (if req.ip = some ip ∧ layer.served reqs req = .forwarded then [req] else []) := by
  unfold RateLimitLayer.admitted
  rw [run_concat, List.filter_append, List.map_append]
  congr 1
  by_cases h : req.ip = some ip ∧ layer.served reqs req = .forwarded <;> simp [h]

theorem admitted_sublist (reqs : List Request) : (layer.admitted ip reqs).Sublist reqs := by
  induction reqs using List.reverseRecOn with
  | nil => exact List.Sublist.refl _
  | append_singleton reqs req ih =>
      rw [admitted_concat]
      apply ih.append
      split
      · exact List.Sublist.refl _
      · exact List.nil_sublist _

/-! ## §4  The window -/

theorem cutoff_mono {now' : Instant} (h : now ≤ now') : layer.cutoff now ≤ layer.cutoff now' :=
  Int.sub_le_sub_right h _

/-- What an earlier request let go does not count later. -/
theorem filter_cutoff {now' : Instant} (h : now ≤ now') (ts : List Instant) :
    (ts.filter (layer.cutoff now < ·)).filter (layer.cutoff now' < ·) =
      ts.filter (layer.cutoff now' < ·) := by
  rw [List.filter_filter]
  apply List.filter_congr
  intro t _
  have hmono : layer.cutoff now ≤ layer.cutoff now' := cutoff_mono h
  have himp : layer.cutoff now' < t → layer.cutoff now < t := lt_of_le_of_lt hmono
  by_cases ht : layer.cutoff now' < t <;> simp [ht, himp]

/-- Requests come in the order of their times. -/
def InOrder (reqs : List Request) : Prop := reqs.Pairwise (fun a b => a.now ≤ b.now)

/-- **The invariant.** Within any window that ends now or later, the stored times of an
address are those of its admitted requests. -/
theorem stored_eq (hfar : isLoopback ip = false) (horder : InOrder reqs) (now : Instant)
    (hnow : ∀ req ∈ reqs, req.now ≤ now) :
    ((layer.run reqs).1.stored ip).filter (layer.cutoff now < ·) =
      ((layer.admitted ip reqs).map Request.now).filter (layer.cutoff now < ·) := by
  induction reqs using List.reverseRecOn generalizing now with
  | nil => rfl
  | append_singleton reqs req ih =>
      have hnow' : ∀ r ∈ reqs, r.now ≤ now := fun r hr => hnow r (List.mem_append_left _ hr)
      have hreq : req.now ≤ now := hnow req (by simp)
      obtain ⟨horder', -, hlast⟩ := List.pairwise_append.mp horder
      have hbefore : ∀ r ∈ reqs, r.now ≤ req.now := fun r hr => hlast r hr req (by simp)
      rw [run_concat, admitted_concat, List.map_append, List.filter_append, ← ih horder' now hnow']
      by_cases hexempt : ∀ ip', req.ip = some ip' → isLoopback ip' = true
      · have hne : ¬ (req.ip = some ip ∧ layer.served reqs req = .forwarded) := by
          rintro ⟨hip, -⟩
          rw [hexempt ip hip] at hfar
          cases hfar
        rw [call_exempt hexempt, if_neg hne]
        simp
      · push Not at hexempt
        obtain ⟨ip', hip', hfar'⟩ := hexempt
        have hstored : (layer.call (layer.run reqs).1 req).1.stored ip = _ :=
          (call_spec hip' (by simpa using hfar')).2 ip
        rw [hstored]
        by_cases heq : ip = ip'
        · subst heq
          rw [if_pos rfl, List.filter_append, filter_cutoff hreq]
          congr 1
          simp only [hip', true_and, RateLimitLayer.served]
          split <;> rfl
        · have hne : ¬ (req.ip = some ip ∧ layer.served reqs req = .forwarded) := by
            rintro ⟨hip, -⟩
            exact heq (Option.some.inj (hip.symm.trans hip'))
          rw [if_neg heq, if_neg hne]
          simp

theorem served_iff (hip : req.ip = some ip) (hfar : isLoopback ip = false)
    (horder : InOrder (before ++ [req])) :
    layer.served before req = .forwarded ↔
      (layer.admittedWithin ip before req.now).length < layer.maxRequests := by
  obtain ⟨horder', -, hlast⟩ := List.pairwise_append.mp horder
  rw [RateLimitLayer.served, (call_spec hip hfar).1,
    stored_eq hfar horder' req.now (fun r hr => hlast r hr req (by simp)), List.filter_map,
    List.length_map]
  rfl

/-- Decisions agree once they agree on what is admitted. -/
theorem served_congr {before' : List Request} (hip : req.ip = some ip)
    (hfar : isLoopback ip = false) (horder : InOrder (before ++ [req]))
    (horder' : InOrder (before' ++ [req]))
    (h : layer.admitted ip before' = layer.admitted ip before) :
    layer.served before' req = layer.served before req := by
  have hiff : layer.served before' req = .forwarded ↔ _ := served_iff hip hfar horder'
  rw [RateLimitLayer.admittedWithin, h] at hiff
  replace hiff := hiff.trans (served_iff hip hfar horder).symm
  cases hd : layer.served before req with
  | forwarded => exact hiff.mpr hd
  | tooManyRequests =>
      cases hd' : layer.served before' req with
      | tooManyRequests => rfl
      | forwarded => rw [hiff.mp hd'] at hd; cases hd

theorem InOrder.admitted (h : InOrder (before ++ [req])) :
    InOrder (layer.admitted ip before ++ [req]) :=
  h.sublist ((admitted_sublist before).append (List.Sublist.refl _))

/-- Alone, the admitted requests of an address are admitted again. -/
theorem admitted_admitted (hfar : isLoopback ip = false) (horder : InOrder reqs) :
    layer.admitted ip (layer.admitted ip reqs) = layer.admitted ip reqs := by
  induction reqs using List.reverseRecOn with
  | nil => rfl
  | append_singleton reqs req ih =>
      have hrest := ih (List.pairwise_append.mp horder).1
      rw [admitted_concat]
      split
      · rename_i hadmitted
        obtain ⟨hip, hserved⟩ := hadmitted
        have hagain := (served_congr hip hfar horder horder.admitted hrest).trans hserved
        rw [admitted_concat, hrest, if_pos ⟨hip, hagain⟩]
      · rw [List.append_nil, hrest]

end

/-- A peer on the local network. -/
def peer : IpAddr := .v4 ⟨192, 168, 0, 7⟩

end Oclaw.Gateway.RateLimit
