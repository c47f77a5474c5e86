import Mathlib.Data.List.Infix

/-! The address of a caller behind proxies (`internal/obs/clientip.go`).

Addresses, and how they are written, are those of Go's `net` and `netip`, of which nothing is
assumed. -/
namespace Dbr2.Obs
open List

abbrev Bytes := List UInt8

/-- `net.SplitHostPort` without the port, `netip.ParseAddr`, `Unmap`, `Contains`, and
`strings.TrimSpace` on the bytes of a header, which need not be UTF-8. -/
structure Net (Addr Prefix : Type) where
  splitHostPort : Bytes → Option Bytes
  parse : Bytes → Option Addr
  unmap : Addr → Addr
  contains : Prefix → Addr → Bool
  trimSpace : Bytes → Bytes

variable {Addr Prefix : Type} (net : Net Addr Prefix) (trusted : List Prefix)

/-- `strings.Trim(s, "[]")` -/
def trimBrackets (s : Bytes) : Bytes := ((s.dropWhile ([91, 93].contains ·)).reverse.dropWhile ([91, 93].contains ·)).reverse

/-- None is the address that is not valid. -/
def parseAddr (s : Bytes) : Option Addr := (net.parse (trimBrackets ((net.splitHostPort s).getD s))).map net.unmap

def isTrusted : Option Addr → Bool
  | none => false
  | some a => trusted.any (net.contains · a)

def hops (xff : List Bytes) : List Bytes :=
  xff.flatMap fun v => ((v.splitOn 44).map net.trimSpace).filter (· ≠ [])

def walk (peer : Option Addr) : List Bytes → Option Addr
  | [] => peer
  | h :: rest =>
    match parseAddr net h with
    | none => peer
    | some a => if isTrusted net trusted (some a) then walk (some a) rest else some a

def clientIP (remoteAddr : Bytes) (xff : List Bytes) : Option Addr :=
  let peer := parseAddr net remoteAddr
  if isTrusted net trusted peer then walk net trusted peer (hops net xff).reverse else peer

theorem hops_append (xs ys : List Bytes) : hops net (xs ++ ys) = hops net xs ++ hops net ys := flatMap_append

theorem hops_comma (x y : Bytes) (rest : List Bytes) : hops net ((x ++ 44 :: y) :: rest) = hops net (x :: y :: rest) := by
  unfold hops
  rw [flatMap_cons, flatMap_cons, flatMap_cons, ← append_assoc, ← filter_append, ← map_append]
  unfold List.splitOn
  rw [splitOnP_append_cons x y (by simp)]

variable {net trusted}

theorem walk_chain {chain rest : List Bytes} {hop : Bytes} {a : Addr} {peer : Option Addr}
    (hchain : ∀ h ∈ chain, isTrusted net trusted (parseAddr net h) = true) (ha : parseAddr net hop = some a)
    (huntrusted : isTrusted net trusted (some a) = false) : walk net trusted peer (chain ++ hop :: rest) = some a := by
  induction chain generalizing peer with
  | nil => simp [walk, ha, huntrusted]
  | cons h chain ih =>
    have hh := hchain h mem_cons_self
    cases hp : parseAddr net h with
    | none =>
      rw [hp] at hh
      cases hh
    | some b =>
      rw [hp] at hh
      rw [cons_append, walk, hp]
      simp only [hh, if_true]
      exact ih fun h hc => hchain h (mem_cons_of_mem _ hc)

/-- For a trusted peer the lines `before` and the text `x` before a comma do not matter when the hops after
them are an address that is not trusted and then trusted ones; for another peer no line does. -/
theorem clientIP_not_spoofed (net : Net Addr Prefix) (trusted : List Prefix) (remoteAddr : Bytes) :
    (isTrusted net trusted (parseAddr net remoteAddr) = true →
      ∀ (value : Bytes) (after : List Bytes) (hop : Bytes) (chain : List Bytes) (a : Addr),
        hops net (value :: after) = hop :: chain →
        (∀ h ∈ chain, isTrusted net trusted (parseAddr net h) = true) →
        parseAddr net hop = some a → isTrusted net trusted (some a) = false →
        ∀ (before : List Bytes) (x : Bytes),
          clientIP net trusted remoteAddr (before ++ value :: after) = some a ∧
          clientIP net trusted remoteAddr (before ++ (x ++ 44 :: value) :: after) = some a) ∧
    (isTrusted net trusted (parseAddr net remoteAddr) = false →
      ∀ xff, clientIP net trusted remoteAddr xff = parseAddr net remoteAddr) := by
  constructor
  · intro hpeer value after hop chain a hhops hchain ha huntrusted before x
    have hlines (lines : List Bytes) : clientIP net trusted remoteAddr (lines ++ value :: after) = some a := by
      unfold clientIP
      rw [if_pos hpeer, hops_append, hhops, reverse_append, reverse_cons, append_assoc]
      exact walk_chain (fun h hc => hchain h (mem_reverse.1 hc)) ha huntrusted
    refine ⟨hlines before, ?_⟩
    have hcomma : hops net (before ++ (x ++ 44 :: value) :: after) = hops net ((before ++ [x]) ++ value :: after) := by
      rw [hops_append, hops_comma, append_assoc, hops_append]
      rfl
    rw [← hlines (before ++ [x])]
    unfold clientIP
    rw [hcomma]
  · intro hpeer xff
    unfold clientIP
    rw [if_neg (by rw [hpeer]; exact Bool.false_ne_true)]

/-- Addresses of one byte, and prefixes that are one address. -/
def byteNet : Net UInt8 UInt8 where
  splitHostPort _ := none
  parse b := if b.length = 1 then b.head? else none
  unmap := id
  contains p a := p == a
  trimSpace b := b.filter (· ≠ 32)

/-- Behind the proxies 1 and 2, the caller 9 claims to be 7. -/
theorem clientIP_not_spoofed_forged :
    clientIP byteNet [1, 2] [1] ([[7]] ++ ([7] ++ 44 :: [9, 44, 32, 2]) :: []) = some 9 ∧
      clientIP byteNet [1, 2] [9] [[7]] = some 9 := by
  have h := clientIP_not_spoofed byteNet [1, 2] [1]
  have h' := clientIP_not_spoofed byteNet [1, 2] [9]
  exact ⟨(h.1 (by decide) [9, 44, 32, 2] [] [9] [[2]] 9 (by decide) (by decide) (by decide) (by decide) [[7]] [7]).2,
    (h'.2 (by decide) [[7]]).trans (by decide)⟩

end Dbr2.Obs
