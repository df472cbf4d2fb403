import Oclaw.Lib.IpAddr
import Oclaw.Lib.Text

/-!
# Guards against requests to private addresses

`WebFetchTool::is_url_allowed` of `crates/tools-core/src/tool.rs` and `is_blocked_host` of
`crates/auto-reply/src/link_detect.rs`. URLs are parsed by the `url` crate; both guards
look at the text of the host.
-/

namespace Oclaw.ToolsCore

open Oclaw.Lib

/-! ## §1  URLs -/

inductive Host : Type where
  | domain (name : String)
  | ipv4 (v : Ipv4Addr)
  | ipv6 (v : Ipv6Addr)

def Host.ofIp : IpAddr → Host
  | .v4 v => .ipv4 v
  | .v6 v => .ipv6 v

/-- What the guards read of a parsed URL, and the host that it stands for. -/
structure Url : Type where
  scheme : String
  host : Option Host
  hostStr : Option String

def isLowerHexOrColon (c : Char) : Bool :=
  ('0' ≤ c && c ≤ '9') || ('a' ≤ c && c ≤ 'f') || c = ':'

/-- `url::Url::host_str`: an IPv4 address is written with four decimal numbers, an IPv6
address between brackets, in lowercase hexadecimal and with its zeros compressed, so that
`::1` is the text of the loopback address and of no other. -/
structure HostTexts (parse : String → Option Url) : Prop where
  ipv4 : ∀ {url p v}, parse url = some p → p.host = some (.ipv4 v) → p.hostStr = some v.text
  ipv6 : ∀ {url p v}, parse url = some p → p.host = some (.ipv6 v) →
    ∃ s, p.hostStr = some ("[" ++ s ++ "]") ∧ (s = "::1" ↔ v = .localhost) ∧
      ∀ c ∈ s.toList, isLowerHexOrColon c = true

/-! ## §2  The guards -/

/-- The ranges that `is_url_allowed` looks for. -/
def isPrivateV4 (v : Ipv4Addr) : Bool :=
  v.isLoopback || v.isPrivate || v.isLinkLocal || v.isUnspecified

def isPrivateAddr : IpAddr → Bool
  | .v4 v => isPrivateV4 v
  | .v6 v =>
      v.isLoopback || v.isUnspecified ||
        -- link-local fe80::/10
        v.segments.get 0 &&& 0xffc0 = 0xfe80 ||
        -- unique-local fc00::/7
        v.segments.get 0 &&& 0xfe00 = 0xfc00 ||
        -- multicast ff00::/8
        v.segments.get 0 &&& 0xff00 = 0xff00 ||
        v.toIpv4Mapped.any isPrivateV4

/-- `allowPrivateFetch` is the environment variable `OCLAWS_ALLOW_PRIVATE_FETCH`. -/
def isUrlAllowed (parse : String → Option Url) (allowPrivateFetch : Option String)
    (url : String) : Bool :=
  match parse url with
  | none => false
  | some parsed =>
      if parsed.scheme ≠ "http" ∧ parsed.scheme ≠ "https" then false
      else
        match parsed.hostStr with
        | none => false
        | some host =>
            if host ∈ ["localhost", "127.0.0.1", "0.0.0.0", "[::1]", "::1"] then
              allowPrivateFetch.isSome
            else
              match parseIpAddr host with
              | some ip => if isPrivateAddr ip then allowPrivateFetch.isSome else true
              | none => true

def isPrivateIp : IpAddr → Bool
  | .v4 v =>
      v.isLoopback || v.isPrivate || v.isLinkLocal || v.isBroadcast || v.isUnspecified ||
        (v.a = 169 && v.b = 254)
  | .v6 v => v.isLoopback || v.isUnspecified

def endsWith (s suffix : String) : Bool := suffix.toList.isSuffixOf s.toList

def isBlockedHost (host : String) : Bool :=
  match parseIpAddr host with
  | some ip => isPrivateIp ip
  | none =>
      let lower := toLowercase host
      if lower ∈ ["localhost", "127.0.0.1", "0.0.0.0", "[::1]", "metadata.google.internal",
          "169.254.169.254"] then true
      else endsWith lower ".local" || endsWith lower ".internal"

/-! ## §3  Addresses in brackets -/

variable {parse : String → Option Url} {url s : String} {p : Url} {ip : IpAddr}

/-- Loopback, unspecified, private and link-local addresses, unique-local ones, and
IPv6 addresses that stand for a private IPv4 address. -/
def IsPrivate : IpAddr → Prop
  | .v4 v => v.isLoopback ∨ v.isUnspecified ∨ v.isPrivate ∨ v.isLinkLocal
  | .v6 v => v.isLoopback ∨ v.isUnspecified ∨ v.segments.get 0 &&& 0xffc0 = 0xfe80 ∨
      v.segments.get 0 &&& 0xfe00 = 0xfc00 ∨
      ∃ w ∈ v.toIpv4Mapped, w.isLoopback ∨ w.isUnspecified ∨ w.isPrivate ∨ w.isLinkLocal

theorem bracket_inj : "[" ++ s ++ "]" = "[::1]" ↔ s = "::1" := by
  constructor
  · intro h
    have hlist := congrArg String.toList h
    simp only [String.toList_append] at hlist
    refine String.toList_inj.mp ((List.append_left_inj "]".toList).mp ?_)
    exact (List.append_right_inj "[".toList).mp (by simpa using hlist)
  · rintro rfl
    rfl

theorem toNat_of_isLowerHexOrColon {c : Char} (h : isLowerHexOrColon c = true) :
    c.toNat < 128 := by
  simp only [isLowerHexOrColon, Bool.or_eq_true, Bool.and_eq_true, decide_eq_true_eq] at h
  rcases h with (⟨-, h⟩ | ⟨-, h⟩) | rfl
  · exact Nat.lt_of_le_of_lt (UInt32.le_iff_toNat_le.mp h) (by decide)
  · exact Nat.lt_of_le_of_lt (UInt32.le_iff_toNat_le.mp h) (by decide)
  · decide

/-- Lowercase text with brackets around it is lowercase. -/
theorem toLowercase_bracket (h : ∀ c ∈ s.toList, isLowerHexOrColon c = true) :
    toLowercase ("[" ++ s ++ "]") = "[" ++ s ++ "]" := by
  have hascii : ∀ n : Fin 128, isLowerHexOrColon (Char.ofNat n) = true →
      (Char.ofNat n).toNat ≠ 0x212A ∧ (Char.ofNat n).toNat ≠ 0x130 ∧
        (Char.ofNat n).toLower = Char.ofNat n := by
    decide
  have hchar (c : Char) (hc : isLowerHexOrColon c = true) :
      (if c.toNat = 0x212A then ['k']
        else if c.toNat = 0x130 then ['i', Char.ofNat 0x307] else [c.toLower]) = [c] := by
    have hsame := hascii ⟨c.toNat, toNat_of_isLowerHexOrColon hc⟩
    rw [Char.ofNat_toNat] at hsame
    obtain ⟨hkelvin, hdotted, hlower⟩ := hsame hc
    rw [if_neg hkelvin, if_neg hdotted, hlower]
  have hmiddle : s.toList.flatMap (fun c => if c.toNat = 0x212A then ['k']
      else if c.toNat = 0x130 then ['i', Char.ofNat 0x307] else [c.toLower]) = s.toList := by
    rw [List.flatMap_congr (fun c hc => hchar c (h c hc)), List.flatMap_singleton']
  simp only [toLowercase, String.toList_append, List.flatMap_append, hmiddle]
  exact String.toList_inj.mp (by simp)

/-- Among listed hosts, only one has brackets. -/
theorem bracket_mem_iff {hosts : List String} (hloop : "[::1]" ∈ hosts)
    (hother : ∀ host ∈ hosts, host = "[::1]" ∨ host.toList.head? ≠ some '[') :
    "[" ++ s ++ "]" ∈ hosts ↔ s = "::1" := by
  rw [← bracket_inj]
  constructor
  · intro hmem
    rcases hother _ hmem with heq | hhead
    · exact heq
    · exact absurd (by simp) hhead
  · intro heq
    rw [heq]
    exact hloop

theorem parseIpAddr_brackets : parseIpAddr ("[" ++ s ++ "]") = none := by
  rw [String.append_assoc]
  exact parseIpAddr_bracket _

/-- Such a host is blocked by its text only. -/
theorem isBlockedHost_bracket (h : ∀ c ∈ s.toList, isLowerHexOrColon c = true) :
    isBlockedHost ("[" ++ s ++ "]") = true ↔ s = "::1" := by
  have hlocal (suffix : String) (hlast : suffix.toList.getLast? = some 'l') :
      endsWith ("[" ++ s ++ "]") suffix = false := by
    rw [endsWith, Bool.eq_false_iff]
    intro hsuffix
    obtain ⟨front, hfront⟩ := List.isSuffixOf_iff_suffix.mp hsuffix
    have hend := congrArg List.getLast? hfront
    rw [List.getLast?_append, hlast, String.toList_append, List.getLast?_append] at hend
    cases hend
  have hlisted : "[" ++ s ++ "]" ∈ ["localhost", "127.0.0.1", "0.0.0.0", "[::1]",
      "metadata.google.internal", "169.254.169.254"] ↔ s = "::1" :=
    bracket_mem_iff (by decide) (by decide)
  rw [← hlisted]
  simp only [isBlockedHost, parseIpAddr_brackets, toLowercase_bracket h,
    hlocal ".local" (by decide), hlocal ".internal" (by decide)]
  split
  · exact iff_of_true rfl ‹_›
  · exact iff_of_false (by simp) ‹_›

/-- And it is fetched unless that text is listed. -/
theorem isUrlAllowed_bracket (hparse : parse url = some p)
    (hscheme : p.scheme = "http" ∨ p.scheme = "https")
    (hhost : p.hostStr = some ("[" ++ s ++ "]")) :
    isUrlAllowed parse none url = false ↔ s = "::1" := by
  have hweb : ¬ (p.scheme ≠ "http" ∧ p.scheme ≠ "https") := by
    rwa [← not_or, not_not]
  have hlisted : "[" ++ s ++ "]" ∈ ["localhost", "127.0.0.1", "0.0.0.0", "[::1]", "::1"] ↔
      s = "::1" := bracket_mem_iff (by decide) (by decide)
  rw [← hlisted]
  simp only [isUrlAllowed, hparse, hhost, parseIpAddr_brackets, if_neg hweb]
  split
  · exact iff_of_true rfl ‹_›
  · exact iff_of_false (by simp) ‹_›

/-! ## §4  Both guards -/

theorem isPrivateV4_eq_true {v : Ipv4Addr} : isPrivateV4 v = true ↔ IsPrivate (.v4 v) := by
  simp only [isPrivateV4, IsPrivate, Bool.or_eq_true]
  tauto

/-- Both guards refuse a private IPv4 address. -/
theorem guards_refuse_ipv4 {v : Ipv4Addr} (hparse : parse url = some p)
    (hhost : p.hostStr = some v.text) (hprivate : IsPrivate (.v4 v)) :
    isUrlAllowed parse none url = false ∧ isBlockedHost v.text = true := by
  have haddr : isPrivateAddr (.v4 v) = true := isPrivateV4_eq_true.mpr hprivate
  constructor
  · simp only [isUrlAllowed, hparse, hhost, parseIpAddr_text, haddr, if_true, Option.isSome_none]
    split
    · rfl
    · split <;> rfl
  · simp only [isBlockedHost, parseIpAddr_text, isPrivateIp, Bool.or_eq_true]
    rcases hprivate with h | h | h | h <;> simp [h]

/-- Of the private addresses, the guards refuse those of IPv4 and the IPv6 loopback. -/
theorem guards_refuse_private (texts : HostTexts parse) (hparse : parse url = some p)
    (hscheme : p.scheme = "http" ∨ p.scheme = "https") (hhost : p.host = some (.ofIp ip))
    (hprivate : IsPrivate ip) :
    (isUrlAllowed parse none url = false ∧ ∀ host ∈ p.hostStr, isBlockedHost host = true) ↔
      (∃ v, ip = .v4 v) ∨ ip = .v6 .localhost := by
  cases ip with
  | v4 v =>
      have htext := texts.ipv4 hparse hhost
      obtain ⟨hallowed, hblocked⟩ := guards_refuse_ipv4 hparse htext hprivate
      simp [hallowed, htext, hblocked]
  | v6 v =>
      obtain ⟨s, htext, hloop, hchars⟩ := texts.ipv6 hparse hhost
      rw [isUrlAllowed_bracket hparse hscheme htext, htext]
      simp [isBlockedHost_bracket hchars, hloop]

/-- The IPv4 loopback address written as an IPv6 one. -/
def mappedLoopback : Url :=
  ⟨"http", some (.ipv6 ⟨#v[0, 0, 0, 0, 0, 0xffff, 0x7f00, 1]⟩), some "[::ffff:7f00:1]"⟩

theorem mapped_loopback_passes :
    ∃ parse url p ip, HostTexts parse ∧ parse url = some p ∧ p.scheme = "http" ∧
      p.host = some (.ofIp ip) ∧ IsPrivate ip ∧ isUrlAllowed parse none url = true ∧
      ∃ host ∈ p.hostStr, isBlockedHost host = false := by
  let parse (url : String) : Option Url :=
    if url = "http://[::ffff:127.0.0.1]/" then some mappedLoopback else none
  refine ⟨parse, "http://[::ffff:127.0.0.1]/", mappedLoopback,
    .v6 ⟨#v[0, 0, 0, 0, 0, 0xffff, 0x7f00, 1]⟩, ⟨?_, ?_⟩, rfl, rfl, rfl, ?_, ?_, ?_⟩
  · rintro url p v hparse hhost
    obtain ⟨-, hp⟩ := Option.ite_none_right_eq_some.mp hparse
    cases hp
    cases hhost
  · rintro url p v hparse hhost
    obtain ⟨-, hp⟩ := Option.ite_none_right_eq_some.mp hparse
    cases hp
    cases hhost
    exact ⟨"::ffff:7f00:1", rfl, by decide, List.all_eq_true.mp (by decide)⟩
  · refine Or.inr (Or.inr (Or.inr (Or.inr ⟨⟨127, 0, 0, 1⟩, by decide, Or.inl (by decide)⟩)))
  · decide
  · exact ⟨_, rfl, by decide⟩

/-- A metadata service by its IPv4 address. -/
theorem guards_refuse_private_metadata :
    ∃ parse : String → Option Url, ∃ p,
      parse "http://169.254.169.254/latest/meta-data/" = some p ∧
      isUrlAllowed parse none "http://169.254.169.254/latest/meta-data/" = false ∧
      ∀ host ∈ p.hostStr, isBlockedHost host = true := by
  let p : Url := ⟨"http", some (.ipv4 ⟨169, 254, 169, 254⟩), some "169.254.169.254"⟩
  let parse (url : String) : Option Url :=
    if url = "http://169.254.169.254/latest/meta-data/" then some p else none
  have texts : HostTexts parse := by
    constructor
    · rintro url p' v hparse hhost
      obtain ⟨-, hp⟩ := Option.ite_none_right_eq_some.mp hparse
      cases hp
      cases hhost
      decide
    · rintro url p' v hparse hhost
      obtain ⟨-, hp⟩ := Option.ite_none_right_eq_some.mp hparse
      cases hp
      cases hhost
  have hparse : parse "http://169.254.169.254/latest/meta-data/" = some p := if_pos rfl
  have hhost : p.host = some (.ofIp (.v4 ⟨169, 254, 169, 254⟩)) := rfl
  exact ⟨parse, p, hparse, (guards_refuse_private texts hparse (Or.inl rfl) hhost
    (Or.inr (Or.inr (Or.inr (by decide))))).mpr (Or.inl ⟨_, rfl⟩)⟩

end Oclaw.ToolsCore
