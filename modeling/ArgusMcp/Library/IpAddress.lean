import Mathlib.Algebra.Ring.Nat
import Mathlib.Data.List.Basic
import Mathlib.Tactic.Common

/-!
# Addresses of the internet

The texts that stand for an IPv4 or an IPv6 address, and those that stand for a network, as the
module `ipaddress` of Python reads them. An octet has no leading zeros. An IPv6 address may have one
run of zeros left out, an IPv4 address in place of its last two parts, and a scope behind a percent
sign, which says nothing about the address. A network is an address with the length of its prefix; for
IPv4 a netmask will do, or a hostmask. Bits of the address behind the prefix are ignored.

Every address has a text (`ofText_text`), so what holds of all texts holds of all addresses.
-/

namespace ArgusMcp

namespace IpAddress

abbrev Text := List Char

inductive Address where
  | v4 (value : BitVec 32)
  | v6 (value : BitVec 128)
  deriving DecidableEq

/-- An address and the length of the prefix. -/
inductive Network where
  | v4 (base : BitVec 32) (prefixLen : Fin 33)
  | v6 (base : BitVec 128) (prefixLen : Fin 129)
  deriving DecidableEq

/-- An address is in a network of its version if it has the prefix of the network. -/
def Network.contains : Network → Address → Bool
  | .v4 base n, .v4 value => value >>> (32 - n.val) = base >>> (32 - n.val)
  | .v6 base n, .v6 value => value >>> (128 - n.val) = base >>> (128 - n.val)
  | _, _ => false

/-! ## Numbers -/

/-- The number with these digits. -/
def ofDigits (b : ℕ) (digits : List ℕ) : ℕ := digits.foldl (fun n d ↦ n * b + d) 0

def decimalDigit (c : Char) : Option ℕ :=
  if '0' ≤ c ∧ c ≤ '9' then some (c.toNat - '0'.toNat) else none

def hexDigit (c : Char) : Option ℕ :=
  if '0' ≤ c ∧ c ≤ '9' then some (c.toNat - '0'.toNat)
  else if 'a' ≤ c ∧ c ≤ 'f' then some (c.toNat - 'a'.toNat + 10)
  else if 'A' ≤ c ∧ c ≤ 'F' then some (c.toNat - 'A'.toNat + 10)
  else none

def parseOctet (s : Text) : Option ℕ :=
  if s = [] ∨ 3 < s.length ∨ (s ≠ ['0'] ∧ s.head? = some '0') then none
  else ((s.mapM decimalDigit).map (ofDigits 10)).filter (· ≤ 255)

def parseHextet (s : Text) : Option ℕ :=
  if s = [] ∨ 4 < s.length then none else (s.mapM hexDigit).map (ofDigits 16)

/-! ## Addresses -/

/-- `IPv4Address`. -/
def ofText4 (s : Text) : Option (BitVec 32) :=
  let octets := s.splitOn '.'
  if octets.length ≠ 4 then none
  else (octets.mapM parseOctet).map fun ds ↦ BitVec.ofNat 32 (ofDigits 256 ds)

/-- The parts of an IPv6 address, with an IPv4 address at the end made two parts. -/
def expandSuffix (parts : List Text) : Option (List Text) :=
  let last := parts.getLast?.getD []
  if '.' ∈ last then
    (ofText4 last).map fun value ↦
      parts.dropLast ++
        [Nat.toDigits 16 (value.toNat / 65536), Nat.toDigits 16 (value.toNat % 65536)]
  else some parts

/-- The parts between the ends that are empty. -/
def skips (parts : List Text) : List ℕ :=
  (List.range parts.length).filter fun i ↦
    decide (0 < i ∧ i + 1 < parts.length ∧ parts[i]? = some [])

/-- The parts before a run of zeros that is left out. The first one may be empty if it is the only
one. -/
def before (parts : List Text) : Option (List Text) :=
  if parts.head? = some [] then if parts.length = 1 then some [] else none else some parts

def behind (parts : List Text) : Option (List Text) :=
  if parts.getLast? = some [] then if parts.length = 1 then some [] else none else some parts

/-- The value of so many parts, with zeros between them. -/
def ofParts (hi : List Text) (zeros : ℕ) (lo : List Text) : Option (BitVec 128) :=
  (hi.mapM parseHextet).bind fun his ↦ (lo.mapM parseHextet).map fun los ↦
    BitVec.ofNat 128 (ofDigits 65536 (his ++ List.replicate zeros 0 ++ los))

/-- What the parts of an IPv6 address say. -/
def joinParts (parts : List Text) : Option (BitVec 128) :=
  match skips parts with
  | [] => if parts.length ≠ 8 then none else ofParts parts 0 []
  | [i] =>
    (before (parts.take i)).bind fun hi ↦ (behind (parts.drop (i + 1))).bind fun lo ↦
      if 8 ≤ hi.length + lo.length then none else ofParts hi (8 - (hi.length + lo.length)) lo
  | _ => none

/-- `IPv6Address`, without a scope. -/
def ofText6 (s : Text) : Option (BitVec 128) :=
  let parts := s.splitOn ':'
  if parts.length < 3 then none
  else (expandSuffix parts).bind fun parts ↦ if 9 < parts.length then none else joinParts parts

/-- `_split_scope_id`: what is before the scope. -/
def withoutScope (s : Text) : Option Text :=
  match s.splitOn '%' with
  | [address] => some address
  | [address, scope] => if scope = [] then none else some address
  | _ => none

/-- `ip_address`. -/
def ofText (s : Text) : Option Address :=
  if '/' ∈ s then none
  else match ofText4 s with
    | some value => some (.v4 value)
    | none => ((withoutScope s).bind ofText6).map .v6

/-! ## Networks -/

/-- The length of a prefix. More than 4300 digits are not read. -/
def prefixOfDigits (max : ℕ) (s : Text) : Option (Fin (max + 1)) :=
  if s = [] ∨ 4300 < s.length then none
  else (s.mapM decimalDigit).bind fun ds ↦
    if h : ofDigits 10 ds < max + 1 then some ⟨ofDigits 10 ds, h⟩ else none

/-- The first so many bits are set. -/
def netmask (n : Fin 33) : BitVec 32 := ~~~(BitVec.allOnes 32 >>> n.val)

/-- The length of a prefix that is given as a mask: a netmask, or a hostmask. -/
def prefixOfMask (s : Text) : Option (Fin 33) :=
  (ofText4 s).bind fun mask ↦
    ((List.finRange 33).find? fun n ↦ decide (netmask n = mask)).or
      ((List.finRange 33).find? fun n ↦ decide (netmask n = ~~~mask))

/-- `IPv4Network`. -/
def network4 (address : Text) (mask : Option Text) : Option Network :=
  (ofText4 address).bind fun base ↦
    match mask with
    | none => some (.v4 base 32)
    | some mask => ((prefixOfDigits 32 mask).or (prefixOfMask mask)).map (.v4 base)

/-- `IPv6Network`. -/
def network6 (address : Text) (mask : Option Text) : Option Network :=
  ((withoutScope address).bind ofText6).bind fun base ↦
    match mask with
    | none => some (.v6 base 128)
    | some mask => (prefixOfDigits 128 mask).map (.v6 base)

/-- `ip_network(_, strict=False)`. -/
def networkOfText (s : Text) : Option Network :=
  match s.splitOn '/' with
  | [address] => (network4 address none).or (network6 address none)
  | [address, mask] => (network4 address (some mask)).or (network6 address (some mask))
  | _ => none

example : networkOfText "10.1.2.3/255.0.0.0".toList = some (.v4 0x0a010203 8) := by decide
example : ofText "::ffff:1.2.3.4%eth0".toList = some (.v6 0xffff01020304) := by decide

/-! ## Special addresses -/

def inNetworks (networks : List String) (a : Address) : Bool :=
  networks.any fun s ↦ (networkOfText s.toList).any fun network ↦ network.contains a

/-- An IPv6 address may stand for an IPv4 address. -/
def unmapped : Address → Address
  | .v6 value => if value >>> 32 = 0xffff then .v4 (value.setWidth 32) else .v6 value
  | a => a

/-- `is_private`: not for the whole internet. -/
def isPrivate (a : Address) : Bool :=
  inNetworks
    ["0.0.0.0/8", "10.0.0.0/8", "127.0.0.0/8", "169.254.0.0/16", "172.16.0.0/12", "192.0.0.0/24",
      "192.0.0.170/31", "192.0.2.0/24", "192.168.0.0/16", "198.18.0.0/15", "198.51.100.0/24",
      "203.0.113.0/24", "240.0.0.0/4", "255.255.255.255/32", "::1/128", "::/128", "64:ff9b:1::/48",
      "100::/64", "2001::/23", "2001:db8::/32", "2002::/16", "3fff::/20", "fc00::/7", "fe80::/10"]
    (unmapped a) &&
  !inNetworks
    ["192.0.0.9/32", "192.0.0.10/32", "2001:1::1/128", "2001:1::2/128", "2001:3::/32",
      "2001:4:112::/48", "2001:20::/28", "2001:30::/28"]
    (unmapped a)

def isLoopback (a : Address) : Bool := inNetworks ["127.0.0.0/8", "::1/128"] (unmapped a)

def isLinkLocal (a : Address) : Bool := inNetworks ["169.254.0.0/16", "fe80::/10"] (unmapped a)

/-! ## The text of an address -/

/-- The last `k` digits. -/
def digits (b : ℕ) : ℕ → ℕ → List ℕ
  | 0, _ => []
  | k + 1, n => digits b k (n / b) ++ [n % b]

def octetText (n : ℕ) : Text := Nat.toDigits 10 n

def hextetText (n : ℕ) : Text := (digits 16 4 n).map Nat.digitChar

/-- An address, with all its zeros. -/
def Address.text : Address → Text
  | .v4 value => ['.'].intercalate ((digits 256 4 value.toNat).map octetText)
  | .v6 value => [':'].intercalate ((digits 65536 8 value.toNat).map hextetText)

theorem ofDigits_concat (b : ℕ) (ds : List ℕ) (d : ℕ) :
    ofDigits b (ds ++ [d]) = ofDigits b ds * b + d := by
  rw [ofDigits, List.foldl_append]
  rfl

theorem ofDigits_digits (b k n : ℕ) : ofDigits b (digits b k n) = n % b ^ k := by
  induction k generalizing n with
  | zero => exact (Nat.mod_one n).symm
  | succ k ih =>
    rw [digits, ofDigits_concat, ih, Nat.pow_succ', Nat.mod_mul, Nat.mul_comm, Nat.add_comm]

theorem length_digits (b k n : ℕ) : (digits b k n).length = k := by
  induction k generalizing n with
  | zero => rfl
  | succ k ih => rw [digits, List.length_append, ih, List.length_singleton]

theorem lt_of_mem_digits {b : ℕ} (hb : 0 < b) {k n d : ℕ} (h : d ∈ digits b k n) : d < b := by
  induction k generalizing n with
  | zero => exact absurd h List.not_mem_nil
  | succ k ih =>
    rcases List.mem_append.mp h with h | h
    · exact ih h
    · rw [List.mem_singleton.mp h]
      exact Nat.mod_lt n hb

theorem mapM_map_eq_some {α β : Type} {f : β → Option α} {g : α → β} {l : List α}
    (h : ∀ a ∈ l, f (g a) = some a) : (l.map g).mapM f = some l := by
  induction l with
  | nil => rfl
  | cons a l ih =>
    obtain ⟨ha, hl⟩ := List.forall_mem_cons.mp h
    rw [List.map_cons, List.mapM_cons, ha, ih hl]
    rfl

def addressChars : Text := "0123456789abcdef.:".toList

theorem parseOctet_octetText {n : ℕ} (h : n < 256) : parseOctet (octetText n) = some n := by
  have hall : ∀ n : Fin 256, parseOctet (octetText n.val) = some n.val := by
    decide +kernel
  exact hall ⟨n, h⟩

theorem octetText_subset {n : ℕ} (h : n < 256) : octetText n ⊆ "0123456789".toList := by
  have hall : ∀ n : Fin 256, (octetText n.val).all (· ∈ "0123456789".toList) = true := by
    decide +kernel
  intro c hc
  exact of_decide_eq_true (List.all_eq_true.mp (hall ⟨n, h⟩) c hc)

theorem hexDigit_digitChar {d : ℕ} (h : d < 16) : hexDigit (Nat.digitChar d) = some d := by
  have hall : ∀ d : Fin 16, hexDigit (Nat.digitChar d.val) = some d.val := by decide
  exact hall ⟨d, h⟩

theorem digitChar_mem {d : ℕ} (h : d < 16) : Nat.digitChar d ∈ "0123456789abcdef".toList := by
  have hall : ∀ d : Fin 16, Nat.digitChar d.val ∈ "0123456789abcdef".toList := by decide
  exact hall ⟨d, h⟩

theorem length_hextetText (n : ℕ) : (hextetText n).length = 4 := by
  rw [hextetText, List.length_map, length_digits]

theorem parseHextet_hextetText {n : ℕ} (h : n < 65536) : parseHextet (hextetText n) = some n := by
  have hlen := length_hextetText n
  have hne : ¬ (hextetText n = [] ∨ 4 < (hextetText n).length) := by
    rintro (hnil | hlong)
    · rw [hnil] at hlen
      exact absurd hlen (by decide)
    · omega
  rw [parseHextet, if_neg hne, hextetText,
    mapM_map_eq_some fun d hd ↦ hexDigit_digitChar (lt_of_mem_digits (by decide) hd)]
  have hlt : n < 16 ^ 4 := Nat.lt_of_lt_of_eq h (by decide)
  rw [Option.map_some, ofDigits_digits, Nat.mod_eq_of_lt hlt]

theorem hextetText_subset (n : ℕ) : hextetText n ⊆ "0123456789abcdef".toList := by
  intro c hc
  obtain ⟨d, hd, rfl⟩ := List.mem_map.mp hc
  exact digitChar_mem (lt_of_mem_digits (by decide) hd)

theorem splitOn_intercalate_map {g : ℕ → Text} {sep : Char} {allowed : Text} {l : List ℕ}
    (hsub : ∀ n ∈ l, g n ⊆ allowed) (hsep : sep ∉ allowed) (hne : l ≠ []) :
    ([sep].intercalate (l.map g)).splitOn sep = l.map g := by
  apply List.splitOn_intercalate
  · intro part hpart hmem
    obtain ⟨n, hn, rfl⟩ := List.mem_map.mp hpart
    exact hsep (hsub n hn hmem)
  · exact fun h ↦ hne (List.map_eq_nil_iff.mp h)

theorem intercalate_subset {sep : Char} {allowed : Text} (hsep : sep ∈ allowed) {parts : List Text}
    (h : ∀ part ∈ parts, part ⊆ allowed) : [sep].intercalate parts ⊆ allowed := by
  induction parts with
  | nil => exact List.nil_subset _
  | cons part parts ih =>
    obtain ⟨hpart, hparts⟩ := List.forall_mem_cons.mp h
    rcases parts with _ | ⟨next, parts⟩
    · rw [List.intercalate_singleton]
      exact hpart
    · rw [List.intercalate_cons_of_ne_nil (List.cons_ne_nil next parts)]
      intro c hc
      rcases List.mem_append.mp hc with hc | hc
      · rcases List.mem_append.mp hc with hc | hc
        · exact hpart hc
        · rw [List.mem_singleton.mp hc]
          exact hsep
      · exact ih hparts hc

theorem digits_ne_nil {b k n : ℕ} (hk : k ≠ 0) : digits b k n ≠ [] := by
  intro h
  have hlen := length_digits b k n
  rw [h] at hlen
  exact hk hlen.symm

theorem text_subset (a : Address) : a.text ⊆ addressChars := by
  rcases a with value | value
  · apply intercalate_subset (by decide)
    intro part hpart
    obtain ⟨n, hn, rfl⟩ := List.mem_map.mp hpart
    exact List.Subset.trans (octetText_subset (lt_of_mem_digits (by decide) hn)) (by decide)
  · apply intercalate_subset (by decide)
    intro part hpart
    obtain ⟨n, -, rfl⟩ := List.mem_map.mp hpart
    exact List.Subset.trans (hextetText_subset n) (by decide)

theorem ofText4_text (value : BitVec 32) : ofText4 (Address.text (.v4 value)) = some value := by
  have hlt : ∀ n ∈ digits 256 4 value.toNat, n < 256 :=
    fun n hn ↦ lt_of_mem_digits (by decide) hn
  have hsplit : (Address.text (.v4 value)).splitOn '.' =
      (digits 256 4 value.toNat).map octetText :=
    splitOn_intercalate_map (fun n hn ↦ octetText_subset (hlt n hn)) (by decide)
      (digits_ne_nil (by decide))
  have hvalue : value.toNat < 256 ^ 4 := Nat.lt_of_lt_of_eq value.isLt (by decide)
  rw [ofText4, hsplit, List.length_map, length_digits, if_neg (not_not.mpr rfl),
    mapM_map_eq_some fun n hn ↦ parseOctet_octetText (hlt n hn), Option.map_some, ofDigits_digits,
    Nat.mod_eq_of_lt hvalue, BitVec.ofNat_toNat, BitVec.setWidth_eq]

theorem ofText4_eq_none {s : Text} (h : '.' ∉ s) : ofText4 s = none := by
  rw [ofText4, List.splitOn_eq_singleton h, List.length_singleton]
  exact if_pos (by decide)

theorem expandSuffix_of_not_mem {parts : List Text} (h : ∀ part ∈ parts, '.' ∉ part) :
    expandSuffix parts = some parts := by
  refine if_neg fun hdot ↦ ?_
  rcases hlast : parts.getLast? with _ | last
  · rw [hlast] at hdot
    exact List.not_mem_nil hdot
  · rw [hlast] at hdot
    exact h last (List.mem_of_getLast? hlast) hdot

theorem skips_eq_nil {parts : List Text} (h : [] ∉ parts) : skips parts = [] := by
  rw [skips, List.filter_eq_nil_iff]
  intro i _ hskip
  exact h (List.mem_of_getElem? (of_decide_eq_true hskip).2.2)

theorem ofText6_text (value : BitVec 128) : ofText6 (Address.text (.v6 value)) = some value := by
  have hsplit : (Address.text (.v6 value)).splitOn ':' =
      (digits 65536 8 value.toNat).map hextetText :=
    splitOn_intercalate_map (fun n _ ↦ hextetText_subset n) (by decide) (digits_ne_nil (by decide))
  have hlength : ((digits 65536 8 value.toNat).map hextetText).length = 8 := by
    rw [List.length_map, length_digits]
  have hdot : ∀ part ∈ (digits 65536 8 value.toNat).map hextetText, '.' ∉ part := by
    intro part hpart hmem
    obtain ⟨n, -, rfl⟩ := List.mem_map.mp hpart
    exact absurd (hextetText_subset n hmem) (by decide)
  have hempty : [] ∉ (digits 65536 8 value.toNat).map hextetText := by
    intro hmem
    obtain ⟨n, -, hn⟩ := List.mem_map.mp hmem
    have hlen := length_hextetText n
    rw [hn] at hlen
    exact absurd hlen (by decide)
  rw [ofText6, hsplit, hlength, if_neg (by decide), expandSuffix_of_not_mem hdot, Option.bind_some,
    hlength, if_neg (by decide), joinParts, skips_eq_nil hempty]
  dsimp only
  rw [hlength, if_neg (not_not.mpr rfl), ofParts,
    mapM_map_eq_some fun n hn ↦ parseHextet_hextetText (lt_of_mem_digits (by decide) hn)]
  change some (BitVec.ofNat 128 (ofDigits 65536 (digits 65536 8 value.toNat ++ [] ++ []))) = _
  have hvalue : value.toNat < 65536 ^ 8 := Nat.lt_of_lt_of_eq value.isLt (by decide)
  rw [List.append_nil, List.append_nil, ofDigits_digits, Nat.mod_eq_of_lt hvalue,
    BitVec.ofNat_toNat, BitVec.setWidth_eq]

/-- **Round trip.** An address is read from its text. -/
theorem ofText_text (a : Address) : ofText a.text = some a := by
  have hslash : '/' ∉ a.text := fun h ↦ absurd (text_subset a h) (by decide)
  rw [ofText, if_neg hslash]
  rcases a with value | value
  · rw [ofText4_text]
  · have hdot : '.' ∉ Address.text (.v6 value) := by
      intro hmem
      have hsub : Address.text (.v6 value) ⊆ "0123456789abcdef:".toList := by
        apply intercalate_subset (by decide)
        intro part hpart
        obtain ⟨n, -, rfl⟩ := List.mem_map.mp hpart
        exact List.Subset.trans (hextetText_subset n) (by decide)
      exact absurd (hsub hmem) (by decide)
    have hpercent : '%' ∉ Address.text (.v6 value) :=
      fun h ↦ absurd (text_subset (.v6 value) h) (by decide)
    have hscope : withoutScope (Address.text (.v6 value)) = some (Address.text (.v6 value)) := by
      rw [withoutScope, List.splitOn_eq_singleton hpercent]
    rw [ofText4_eq_none hdot, hscope, Option.bind_some, ofText6_text]
    rfl

end IpAddress

end ArgusMcp
