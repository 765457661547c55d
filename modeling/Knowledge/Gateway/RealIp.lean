import Mathlib.Data.List.Basic
import Mathlib.Algebra.Group.Nat.Defs

/-!
`server/internal/middleware/realip.go`: whose address a request is attributed to. Texts are byte
strings. What the file uses of `net/netip`, `net` and `strings` is spelled out here.
-/

set_option autoImplicit false

namespace Knowledge.RealIp

abbrev Bytes := List UInt8

def ascii (s : String) : Bytes := s.toList.map fun c => c.toNat.toUInt8

def comma : UInt8 := 0x2C

def dot : UInt8 := 0x2E

def slash : UInt8 := 0x2F

def colon : UInt8 := 0x3A

def percent : UInt8 := 0x25

def spaces : List Bytes :=
  [[0x09], [0x0A], [0x0B], [0x0C], [0x0D], [0x20], [0xC2, 0x85], [0xC2, 0xA0], [0xE1, 0x9A, 0x80],
    [0xE2, 0x80, 0xA8], [0xE2, 0x80, 0xA9], [0xE2, 0x80, 0xAF], [0xE2, 0x81, 0x9F],
    [0xE3, 0x80, 0x80]] ++
  (List.range 11).map fun k => [0xE2, 0x80, 0x80+k.toUInt8]

def strip (texts : List Bytes) : Nat → Bytes → Bytes
  | 0, s => s
  | fuel+1, s =>
    match texts.find? fun text => text.isPrefixOf s with
    | some text => strip texts fuel (s.drop text.length)
    | none => s

def trimSpace (s : Bytes) : Bytes :=
  let left := strip spaces s.length s
  (strip (spaces.map List.reverse) left.length left.reverse).reverse

/-- An address of `net/netip`: four or sixteen bytes as a number, and a zone if it has one. -/
structure Addr where
  is6 : Bool
  value : Nat
  zone : Bytes

def Addr.bitLen (a : Addr) : Nat := if a.is6 then 128 else 32

def digit (b : UInt8) : Option Nat := if 0x30 ≤ b ∧ b ≤ 0x39 then some (b.toNat-0x30) else none

def hexDigit (b : UInt8) : Option Nat :=
  if 0x30 ≤ b ∧ b ≤ 0x39 then some (b.toNat-0x30)
  else if 0x61 ≤ b ∧ b ≤ 0x66 then some (b.toNat-0x61+10)
  else if 0x41 ≤ b ∧ b ≤ 0x46 then some (b.toNat-0x41+10)
  else none

/-- `parseIPv4Fields`: the fields so far, the value and the number of digits of the one being read,
and whether a digit has to come next. -/
def parseIpv4Fields : Bytes → List Nat → Nat → Nat → Bool → Option (List Nat)
  | [], fields, val, _, _ => if fields.length < 3 then none else some (fields ++ [val])
  | b :: rest, fields, val, digLen, start =>
    match digit b with
    | some d =>
      if digLen = 1 ∧ val = 0 then none
      else if 255 < val*10+d then none
      else parseIpv4Fields rest fields (val*10+d) (digLen+1) false
    | none =>
      if b ≠ dot then none
      else if start ∨ rest = [] then none
      else if fields.length = 3 then none
      else parseIpv4Fields rest (fields ++ [val]) 0 0 true

def ofBytes (bytes : List Nat) : Nat := bytes.foldl (fun value b => value*256+b) 0

def parseIpv4 (s : Bytes) : Option Addr :=
  (parseIpv4Fields s [] 0 0 true).map fun fields => ⟨false, ofBytes fields, []⟩

/-- The loop of `parseIPv6`, at most eight times: the bytes so far, where they leave out zeros, and
what is left of the text. -/
def parseGroups : Nat → Bytes → List Nat → Option Nat → Option (List Nat × Option Nat × Bytes)
  | 0, s, ip, ellipsis => some (ip, ellipsis, s)
  | fuel+1, s, ip, ellipsis =>
    let digits := s.takeWhile fun b => (hexDigit b).isSome
    let acc := digits.foldl (fun acc b => acc*16+(hexDigit b).getD 0) 0
    let rest := s.drop digits.length
    if digits.length = 0 ∨ 4 < digits.length then none
    else if rest.head? = some dot then
      if (ellipsis = none ∧ ip.length ≠ 12) ∨ 16 < ip.length+4 then none
      else (parseIpv4Fields s [] 0 0 true).map fun fields => (ip ++ fields, ellipsis, [])
    else
      let ip := ip ++ [acc / 256, acc % 256]
      match rest with
      | [] => some (ip, ellipsis, [])
      | [_] => none
      | b :: c :: rest =>
        if b ≠ colon then none
        else if c ≠ colon then parseGroups fuel (c :: rest) ip ellipsis
        else if ellipsis.isSome then none
        else if rest = [] then some (ip, some ip.length, [])
        else parseGroups fuel rest ip (some ip.length)

def expand (ip : List Nat) (ellipsis : Option Nat) : Option (List Nat) :=
  match ellipsis with
  | none => if ip.length < 16 then none else some ip
  | some place =>
    if ip.length < 16 then some (ip.take place ++ List.replicate (16-ip.length) 0 ++ ip.drop place)
    else none

def parseIpv6 (s : Bytes) : Option Addr :=
  let text := s.takeWhile (· ≠ percent)
  let zone := s.drop (text.length+1)
  if percent ∈ s ∧ zone = [] then none
  else if text = [colon, colon] then some ⟨true, 0, zone⟩
  else
    let leading := text.take 2 = [colon, colon]
    match parseGroups 8 (if leading then text.drop 2 else text) []
      (if leading then some 0 else none) with
    | some (ip, ellipsis, []) => (expand ip ellipsis).map fun ip => ⟨true, ofBytes ip, zone⟩
    | _ => none

/-- `ParseAddr`: the first dot, colon or percent sign decides what the text is read as. -/
def parseAddr (s : Bytes) : Option Addr :=
  match s.find? fun b => b = dot ∨ b = colon ∨ b = percent with
  | none => none
  | some b => if b = dot then parseIpv4 s else if b = colon then parseIpv6 s else none

structure Network where
  addr : Addr
  bits : Nat

def networkFrom (addr : Addr) (bits : Nat) : Network := ⟨{ addr with zone := [] }, bits⟩

def Network.masked (n : Network) : Network :=
  { n with addr := { n.addr with
    value := n.addr.value / 2^(n.addr.bitLen-n.bits) * 2^(n.addr.bitLen-n.bits) } }

def Network.contains (n : Network) (a : Addr) : Bool :=
  a.zone = [] && a.is6 == n.addr.is6 &&
    a.value / 2^(a.bitLen-n.bits) == n.addr.value / 2^(a.bitLen-n.bits)

def parseBits (s : Bytes) : Option Nat :=
  if s = [] ∨ (1 < s.length ∧ s.head? = some 0x30) then none
  else s.foldl (fun value b => value.bind fun v => (digit b).map fun d => v*10+d) (some 0)

def parseNetwork (s : Bytes) : Option Network :=
  if slash ∉ s then none
  else
    let bits := (s.reverse.takeWhile (· ≠ slash)).reverse
    match parseAddr (s.take (s.length-bits.length-1)), parseBits bits with
    | some addr, some bits =>
      if addr.zone ≠ [] ∨ addr.bitLen < bits then none else some (networkFrom addr bits)
    | _, _ => none

def splitHostPort (hostport : Bytes) : Option Bytes :=
  if colon ∉ hostport then none
  else
    let port := (hostport.reverse.takeWhile (· ≠ colon)).reverse
    let i := hostport.length-port.length-1
    if hostport.head? = some 0x5B then
      let stop := (hostport.takeWhile (· ≠ 0x5D)).length
      if stop+1 ≠ i then none
      else if 0x5B ∈ hostport.drop 1 ∨ 0x5D ∈ hostport.drop (stop+1) then none
      else some ((hostport.take stop).drop 1)
    else if colon ∈ hostport.take i ∨ 0x5B ∈ hostport ∨ 0x5D ∈ hostport then none
    else some (hostport.take i)

def remoteHost (remoteAddr : Bytes) : Bytes := (splitHostPort remoteAddr).getD remoteAddr

structure ProxyTrust where
  nets : List Network

def newProxyTrust (entries : List Bytes) : ProxyTrust :=
  ⟨entries.filterMap fun e =>
    match parseNetwork (trimSpace e) with
    | some n => some n.masked
    | none => (parseAddr (trimSpace e)).map fun addr => networkFrom addr addr.bitLen⟩

def ProxyTrust.trusted (pt : ProxyTrust) (ip : Bytes) : Bool :=
  match parseAddr ip with
  | none => false
  | some addr => pt.nets.any fun n => n.contains addr

def ProxyTrust.walk (pt : ProxyTrust) (peer : Bytes) : List Bytes → Bytes
  | [] => peer
  | part :: parts =>
    if trimSpace part = [] ∨ pt.trusted (trimSpace part) then pt.walk peer parts
    else trimSpace part

/-- The peer of a request and its lines of `X-Forwarded-For`, first line first. -/
structure Request where
  remoteAddr : Bytes
  forwardedFor : List Bytes

def Request.getForwardedFor (r : Request) : Bytes := r.forwardedFor.head?.getD []

def clientIp (pt : Option ProxyTrust) (r : Request) : Bytes :=
  let peer := remoteHost r.remoteAddr
  match pt with
  | none => peer
  | some pt =>
    if pt.nets = [] ∨ pt.trusted peer = false then peer
    else if r.getForwardedFor = [] then peer
    else pt.walk peer (r.getForwardedFor.splitOn comma).reverse

def trustedBy (pt : Option ProxyTrust) (ip : Bytes) : Bool :=
  (pt.map fun pt => pt.trusted ip).getD false

def visible (b : UInt8) : Bool := 0x21 ≤ b && b ≤ 0x7E

structure Address where
  text : Bytes
  nonempty : text ≠ []
  visible : ∀ b ∈ text, visible b = true
  noComma : comma ∉ text

/-- How a proxy adds the address of its client: to the last line, or as a line of its own. -/
inductive Forwarding where
  | appendToLast
  | newLine
  deriving DecidableEq

open Forwarding

def Forwarding.add (a : Bytes) (lines : List Bytes) : Forwarding → List Bytes
  | .newLine => lines ++ [a]
  | .appendToLast =>
    match lines.getLast? with
    | none => [a]
    | some last => lines.dropLast ++ [last ++ comma :: 0x20 :: a]

theorem strip_of_visible {texts : List Bytes}
    (htexts : ∀ text ∈ texts, ∃ b, text.head? = some b ∧ visible b = false) {b : UInt8}
    (hb : visible b = true) (fuel : Nat) (s : Bytes) : strip texts fuel (b :: s) = b :: s := by
  cases fuel with
  | zero => rfl
  | succ fuel =>
    have hnone : (texts.find? fun text => text.isPrefixOf (b :: s)) = none := by
      rw [List.find?_eq_none]
      intro text htext
      obtain ⟨c, hc, hinvisible⟩ := htexts text htext
      cases text with
      | nil => cases hc
      | cons d rest =>
        obtain rfl := Option.some.inj hc
        simp only [List.isPrefixOf, Bool.and_eq_true, beq_iff_eq, not_and]
        rintro rfl
        rw [hb] at hinvisible
        cases hinvisible
    simp only [strip, hnone]

theorem spaces_invisible (texts : List Bytes)
    (h : texts = spaces ∨ texts = spaces.map List.reverse) :
    ∀ text ∈ texts, ∃ b, text.head? = some b ∧ visible b = false := by
  have hall : ∀ text ∈ spaces ++ spaces.map List.reverse,
      (text.head?.any fun b => !visible b) = true := by decide +kernel
  intro text htext
  have hany := hall text (by
    obtain rfl | rfl := h
    · exact List.mem_append_left _ htext
    · exact List.mem_append_right _ htext)
  cases hhead : text.head? with
  | none => simp [hhead] at hany
  | some b => exact ⟨b, rfl, by simpa [hhead] using hany⟩

theorem strip_reverse (a : Address) (fuel : Nat) :
    strip (spaces.map List.reverse) fuel a.text.reverse = a.text.reverse := by
  cases hrev : a.text.reverse with
  | nil => exact absurd (List.reverse_eq_nil_iff.mp hrev) a.nonempty
  | cons b rest =>
    refine strip_of_visible (spaces_invisible _ (.inr rfl)) (a.visible b ?_) fuel rest
    rw [← List.mem_reverse, hrev]
    exact List.mem_cons_self

theorem trimSpace_text (a : Address) : trimSpace a.text = a.text := by
  have hleft : strip spaces a.text.length a.text = a.text := by
    cases htext : a.text with
    | nil => rfl
    | cons b rest =>
      refine strip_of_visible (spaces_invisible _ (.inl rfl)) (a.visible b ?_) _ rest
      rw [htext]
      exact List.mem_cons_self
  simp only [trimSpace, hleft, strip_reverse, List.reverse_reverse]

theorem trimSpace_space (a : Address) : trimSpace (0x20 :: a.text) = a.text := by
  have hfind : (spaces.find? fun text => text.isPrefixOf (0x20 :: a.text)) = some [0x20] := rfl
  have hleft : strip spaces (0x20 :: a.text).length (0x20 :: a.text) =
      strip spaces a.text.length a.text := by
    simp [strip, hfind]
  have htext := trimSpace_text a
  simp only [trimSpace] at htext ⊢
  rw [hleft]
  exact htext

theorem walk_of_untrusted {pt : ProxyTrust} {a : Address} (h : pt.trusted a.text = false)
    {part : Bytes} (hpart : trimSpace part = a.text) (peer : Bytes) (parts : List Bytes) :
    pt.walk peer (part :: parts) = a.text := by
  simp [ProxyTrust.walk, hpart, h, a.nonempty]

theorem walk_of_trusted {pt : ProxyTrust} {part : Bytes} (h : pt.trusted (trimSpace part) = true)
    (peer : Bytes) (parts : List Bytes) : pt.walk peer (part :: parts) = pt.walk peer parts := by
  simp [ProxyTrust.walk, h]

theorem splitOn_appended (line : Bytes) (a : Address) :
    (line ++ comma :: 0x20 :: a.text).splitOn comma = line.splitOn comma ++ [0x20 :: a.text] := by
  have hnot : comma ∉ (0x20 :: a.text : Bytes) := by
    simp only [List.mem_cons, not_or]
    exact ⟨by decide, a.noComma⟩
  rw [List.splitOn_append_cons_self, List.splitOn_eq_singleton hnot]

def mark (b : Bool) : Bytes := if b then [0x79] else [0x78]

theorem walk_mark (pt : ProxyTrust) (peer : Bytes) (b : Bool) :
    pt.walk peer ((mark b).splitOn comma).reverse = mark b := by
  have hnone : parseAddr (mark b) = none := by cases b <;> decide +kernel
  have htrim : trimSpace (mark b) = mark b := by cases b <;> decide +kernel
  have hsplit : (mark b).splitOn comma = [mark b] := by cases b <;> decide +kernel
  have hne : mark b ≠ [] := by cases b <;> decide
  simp [hsplit, ProxyTrust.walk, htrim, ProxyTrust.trusted, hnone, hne]

section

variable {pt : Option ProxyTrust} {remoteAddr : Bytes}

theorem clientIp_of_untrusted (h : trustedBy pt (remoteHost remoteAddr) = false)
    (lines : List Bytes) : clientIp pt ⟨remoteAddr, lines⟩ = remoteHost remoteAddr := by
  cases pt with
  | none => rfl
  | some pt =>
    have hpeer : pt.trusted (remoteHost remoteAddr) = false := by simpa [trustedBy] using h
    simp [clientIp, hpeer]

theorem clientIp_of_trusted {pt : ProxyTrust} (h : pt.trusted (remoteHost remoteAddr) = true)
    {line : Bytes} (hline : line ≠ []) (lines : List Bytes) :
    clientIp (some pt) ⟨remoteAddr, line :: lines⟩ =
      pt.walk (remoteHost remoteAddr) (line.splitOn comma).reverse := by
  have hnets : pt.nets ≠ [] := by
    intro hnil
    simp only [ProxyTrust.trusted, hnil, List.any_nil] at h
    split at h <;> cases h
  simp [clientIp, hnets, h, Request.getForwardedFor, hline]

/-- What a client sends so that its own mark is on the first line and the address is not. -/
def forged (mode : Forwarding) (b : Bool) : List Bytes :=
  match mode with
  | .newLine => [mark b]
  | .appendToLast => [mark b, []]

theorem clientIp_forged {pt : ProxyTrust} (h : pt.trusted (remoteHost remoteAddr) = true)
    (a : Bytes) (mode : Forwarding) (b : Bool) :
    clientIp (some pt) ⟨remoteAddr, mode.add a (forged mode b)⟩ = mark b := by
  have hne : mark b ≠ [] := by cases b <;> decide
  cases mode with
  | newLine => exact (clientIp_of_trusted h hne _).trans (walk_mark pt _ b)
  | appendToLast => exact (clientIp_of_trusted h hne _).trans (walk_mark pt _ b)

theorem clientIp_mark_before {pt : ProxyTrust} (h : pt.trusted (remoteHost remoteAddr) = true)
    {a : Address} (ha : pt.trusted a.text = true) (b : Bool) :
    clientIp (some pt) ⟨remoteAddr, appendToLast.add a.text [mark b]⟩ = mark b := by
  refine (clientIp_of_trusted h (by simp) _).trans ?_
  rw [splitOn_appended, List.reverse_append, List.reverse_singleton, List.singleton_append,
    walk_of_trusted (by rw [trimSpace_space]; exact ha)]
  exact walk_mark pt _ b

theorem clientIp_appended {pt : ProxyTrust} (h : pt.trusted (remoteHost remoteAddr) = true)
    {a : Address} (ha : pt.trusted a.text = false) {lines : List Bytes}
    (hlines : lines.length ≤ 1) :
    clientIp (some pt) ⟨remoteAddr, appendToLast.add a.text lines⟩ = a.text := by
  cases lines with
  | nil =>
    refine (clientIp_of_trusted h a.nonempty _).trans ?_
    rw [List.splitOn_eq_singleton a.noComma]
    exact walk_of_untrusted ha (trimSpace_text a) _ _
  | cons line rest =>
    obtain rfl : rest = [] := List.length_eq_zero_iff.mp (by simpa using hlines)
    refine (clientIp_of_trusted h (by simp) _).trans ?_
    rw [splitOn_appended, List.reverse_append, List.reverse_singleton, List.singleton_append]
    exact walk_of_untrusted ha (trimSpace_space a) _ _

end

theorem mark_ne : mark false ≠ mark true := by decide

/-- A client can change what it is taken for exactly where its peer is trusted. If it sends at most
`n` lines, it cannot where it sends none, or one to which the proxy appends an address that is not
trusted itself. Where the peer is not trusted, it is what the peer is. -/
theorem client_ip_fixed_iff (pt : Option ProxyTrust) (remoteAddr : Bytes) (a : Address)
    (mode : Forwarding) :
    ((∀ lines lines', clientIp pt ⟨remoteAddr, mode.add a.text lines⟩ =
        clientIp pt ⟨remoteAddr, mode.add a.text lines'⟩) ↔
      trustedBy pt (remoteHost remoteAddr) = false) ∧
    (∀ n, (∀ lines lines', lines.length ≤ n → lines'.length ≤ n →
        clientIp pt ⟨remoteAddr, mode.add a.text lines⟩ =
          clientIp pt ⟨remoteAddr, mode.add a.text lines'⟩) ↔
      trustedBy pt (remoteHost remoteAddr) = false ∨ n = 0 ∨
        n = 1 ∧ mode = .appendToLast ∧ trustedBy pt a.text = false) ∧
    (trustedBy pt (remoteHost remoteAddr) = false → ∀ lines,
      clientIp pt ⟨remoteAddr, lines⟩ = remoteHost remoteAddr) := by
  by_cases hpeer : trustedBy pt (remoteHost remoteAddr) = false
  · have hsame := clientIp_of_untrusted hpeer
    exact ⟨by simp [hsame, hpeer], by simp [hsame, hpeer], fun _ => hsame⟩
  cases pt with
  | none => exact absurd rfl hpeer
  | some pt =>
    have htrusted : pt.trusted (remoteHost remoteAddr) = true := by simpa [trustedBy] using hpeer
    have hforged := clientIp_forged htrusted a.text mode
    refine ⟨⟨fun hsame => ?_, fun h => absurd h hpeer⟩, fun n => ⟨fun hsame => .inr ?_, ?_⟩,
      fun h => absurd h hpeer⟩
    · have heq := hsame (forged mode false) (forged mode true)
      rw [hforged, hforged] at heq
      exact absurd heq mark_ne
    · by_contra hcond
      simp only [not_or] at hcond
      obtain ⟨hn, hcond⟩ := hcond
      by_cases hshort : (forged mode false).length ≤ n
      · have heq := hsame (forged mode false) (forged mode true) hshort
          (by cases mode <;> exact hshort)
        rw [hforged, hforged] at heq
        exact absurd heq mark_ne
      · cases mode with
        | newLine => exact hshort (Nat.one_le_iff_ne_zero.mpr hn)
        | appendToLast =>
          have hone : n = 1 := by
            simp only [forged, List.length_cons, List.length_nil] at hshort
            omega
          have ha : pt.trusted a.text = true := by
            by_contra hnot
            exact hcond ⟨hone, rfl, by simpa [trustedBy] using hnot⟩
          have heq := hsame [mark false] [mark true] (by simp [hone]) (by simp [hone])
          rw [clientIp_mark_before htrusted ha, clientIp_mark_before htrusted ha] at heq
          exact absurd heq mark_ne
    · rintro (h | rfl | ⟨rfl, rfl, ha⟩) lines lines' hlines hlines'
      · exact absurd h hpeer
      · rw [List.length_eq_zero_iff.mp (Nat.le_zero.mp hlines),
          List.length_eq_zero_iff.mp (Nat.le_zero.mp hlines')]
      · have ha : pt.trusted a.text = false := by simpa [trustedBy] using ha
        rw [clientIp_appended htrusted ha hlines, clientIp_appended htrusted ha hlines']

def edge : ProxyTrust := newProxyTrust [ascii "10.0.0.0/8"]

def visitor : Address :=
  ⟨ascii "203.0.113.7", by decide +kernel, by decide +kernel, by decide +kernel⟩

theorem client_ip_fixed_at_edge :
    (∀ line, clientIp (some edge) ⟨ascii "10.0.0.1:443",
        appendToLast.add visitor.text [line]⟩ = visitor.text) ∧
      ∀ lines, clientIp (some edge) ⟨ascii "198.51.100.9:443", lines⟩ = ascii "198.51.100.9" := by
  refine ⟨fun line => ?_, fun lines => ?_⟩
  · have hsame := ((client_ip_fixed_iff (some edge) (ascii "10.0.0.1:443") visitor
      .appendToLast).2.1 1).mpr (by decide +kernel) [line] [] (Nat.le_refl _) (Nat.zero_le _)
    rw [hsame]
    decide +kernel
  · have hpeer := (client_ip_fixed_iff (some edge) (ascii "198.51.100.9:443") visitor
      .appendToLast).2.2 (by decide +kernel) lines
    rw [hpeer]
    decide +kernel

/-- A line of its own stands after the client's, and an address on the last line is not seen where
the client sends two. -/
theorem client_ip_forged_at_edge :
    clientIp (some edge) ⟨ascii "10.0.0.1:443", newLine.add visitor.text [ascii "1.1.1.1"]⟩ ≠
      clientIp (some edge) ⟨ascii "10.0.0.1:443", newLine.add visitor.text [ascii "2.2.2.2"]⟩ ∧
    clientIp (some edge) ⟨ascii "10.0.0.1:443",
        appendToLast.add visitor.text [ascii "1.1.1.1", []]⟩ ≠
      clientIp (some edge) ⟨ascii "10.0.0.1:443",
        appendToLast.add visitor.text [ascii "2.2.2.2", []]⟩ := by
  decide +kernel

end Knowledge.RealIp
