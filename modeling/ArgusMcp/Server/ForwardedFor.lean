import ArgusMcp.Library.IpAddress
import ArgusMcp.Server.Auth
import ArgusMcp.Workflows.Interpolation
import Mathlib.Data.List.DropRight

/-!
# Who the client is

`_get_client_ip` of `server/rate_limit.py` finds the address by which the rate limiter knows a client.
A request that comes directly from a trusted proxy carries the addresses that the proxies saw, in the
header `X-Forwarded-For`: every proxy puts the one it saw at the right end. So the rightmost address
that is no trusted proxy is the client, and what is further left the client has written himself.

Entries that are no addresses are passed over, wherever they stand. If the rightmost entry that is no
trusted proxy is of that kind (an address with a port, or a name), the next one to the left is taken,
and the client chooses who he is. `unaffected_iff` says that he can do so in this way only.
-/

namespace ArgusMcp

namespace ForwardedFor

open IpAddress

/-- The networks of the trusted proxies, as `__init__` reads them. Entries that are no networks are
ignored. -/
def trustedProxies (entries : List String) : List Network :=
  entries.filterMap fun entry ↦ networkOfText entry.toList

def strip (s : Text) : Text := (s.dropWhile Workflows.isSpace).rdropWhile Workflows.isSpace

/-- The header, in latin-1. The last one counts, and none is as good as an empty one. -/
def forwardedFor (scope : Scope) : Text :=
  match scope.headers.reverse.find? fun h ↦ decide (h.1 = asciiBytes "x-forwarded-for") with
  | some (_, value) => (latin1 value).toList
  | none => []

def entries (value : Text) : List Text := value.splitOn ','

section

variable (trusted : List Network)

def isTrusted (a : Address) : Bool := trusted.any fun network ↦ network.contains a

/-- An entry that is an address and not trusted, without the space around it. -/
def candidate (entry : Text) : Option Text :=
  match ofText (strip entry) with
  | some a => if isTrusted trusted a then none else some (strip entry)
  | none => none

def rightmost (value : Text) : Option Text := (entries value).reverse.findSome? (candidate trusted)

def getClientIp (scope : Scope) : String :=
  match scope.client with
  | none => "unknown"
  | some directIp =>
    if trusted = [] then directIp
    else match ofText directIp.toList with
      | none => directIp
      | some a =>
        if isTrusted trusted a then
          if forwardedFor scope = [] then directIp
          else match rightmost trusted (forwardedFor scope) with
            | some ip => String.ofList ip
            | none => directIp
        else directIp

/-! ## What the client controls -/

/-- The request comes from a trusted proxy. -/
def FromProxy (scope : Scope) : Prop :=
  ∃ ip a, scope.client = some ip ∧ ofText ip.toList = some a ∧ isTrusted trusted a = true

def Proxy (entry : Text) : Prop := ∃ a, ofText (strip entry) = some a ∧ isTrusted trusted a = true

/-- From its rightmost entry on that is not the address of a trusted proxy, the value is this. -/
def EndsWith (value e : Text) (rest : List Text) : Prop :=
  (∃ left, entries value = left ++ e :: rest) ∧ ¬ Proxy trusted e ∧ ∀ r ∈ rest, Proxy trusted r

def Agree (value value' : Text) : Prop :=
  ∃ e rest, EndsWith trusted value e rest ∧ EndsWith trusted value' e rest

/-- What is further left makes no difference, and behind a peer that is not trusted, nothing does:
another request that agrees gives the same client. -/
def Unaffected (scope : Scope) : Prop :=
  ∀ scope' : Scope, scope'.client = scope.client →
    (FromProxy trusted scope → Agree trusted (forwardedFor scope) (forwardedFor scope')) →
    getClientIp trusted scope' = getClientIp trusted scope

variable {trusted}

theorem candidate_eq_none_of_proxy {entry : Text} (h : Proxy trusted entry) :
    candidate trusted entry = none := by
  obtain ⟨a, ha, htrusted⟩ := h
  rw [candidate, ha]
  exact if_pos htrusted

theorem candidate_eq_some_iff {entry ip : Text} : candidate trusted entry = some ip ↔
    ip = strip entry ∧ ∃ a, ofText ip = some a ∧ isTrusted trusted a = false := by
  rw [candidate]
  rcases ha : ofText (strip entry) with _ | a
  · refine iff_of_false (Option.some_ne_none ip).symm ?_
    rintro ⟨rfl, a, ha', -⟩
    rw [ha] at ha'
    exact Option.some_ne_none a ha'.symm
  · dsimp only
    rcases htrusted : isTrusted trusted a with _ | _
    · rw [if_neg Bool.false_ne_true, Option.some.injEq]
      constructor
      · rintro rfl
        exact ⟨rfl, a, ha, htrusted⟩
      · exact fun h ↦ h.1.symm
    · rw [if_pos rfl]
      refine iff_of_false (Option.some_ne_none ip).symm ?_
      rintro ⟨rfl, a', ha', huntrusted⟩
      rw [ha, Option.some.injEq] at ha'
      rw [← ha', htrusted] at huntrusted
      exact Bool.false_ne_true huntrusted.symm

theorem rightmost_nil : rightmost trusted [] = none := by
  have hnone : candidate trusted [] = none := by
    have hempty : ofText [] = none := by decide
    rw [candidate, strip, List.dropWhile_nil, List.rdropWhile_nil, hempty]
  rw [rightmost, entries, List.splitOn_nil, List.reverse_singleton, List.findSome?_cons, hnone]
  rfl

theorem getClientIp_of_fromProxy {scope : Scope} {ip : String} {a : Address}
    (hclient : scope.client = some ip) (ha : ofText ip.toList = some a)
    (htrusted : isTrusted trusted a = true) :
    getClientIp trusted scope =
      ((rightmost trusted (forwardedFor scope)).map String.ofList).getD ip := by
  have hne : trusted ≠ [] := by
    rintro rfl
    exact Bool.false_ne_true htrusted
  rw [getClientIp, hclient]
  dsimp only
  rw [if_neg hne, ha]
  dsimp only
  rw [if_pos htrusted]
  split
  · rename_i hempty
    rw [hempty, rightmost_nil]
    rfl
  · rcases rightmost trusted (forwardedFor scope) with _ | found
    · rfl
    · rfl

theorem getClientIp_of_not_fromProxy {scope : Scope} (h : ¬ FromProxy trusted scope) :
    getClientIp trusted scope = scope.client.getD "unknown" := by
  rw [getClientIp]
  rcases hclient : scope.client with _ | ip
  · rfl
  · dsimp only
    split
    · rfl
    · rcases ha : ofText ip.toList with _ | a
      · rfl
      · dsimp only
        exact if_neg fun htrusted ↦ h ⟨ip, a, hclient, ha, htrusted⟩

theorem fromProxy_congr {scope scope' : Scope} (h : scope'.client = scope.client) :
    FromProxy trusted scope' ↔ FromProxy trusted scope := by
  rw [FromProxy, FromProxy, h]

/-- What is right of the entry is passed over, and then it comes to the entry. -/
theorem rightmost_of_entries {value e : Text} {left rest : List Text}
    (h : entries value = left ++ e :: rest) (hrest : ∀ r ∈ rest, Proxy trusted r) :
    rightmost trusted value =
      (candidate trusted e).or (left.reverse.findSome? (candidate trusted)) := by
  have hnone : rest.reverse.findSome? (candidate trusted) = none := by
    rw [List.findSome?_eq_none_iff]
    intro r hr
    exact candidate_eq_none_of_proxy (hrest r (List.mem_reverse.mp hr))
  rw [rightmost, h, List.reverse_append, List.reverse_cons, List.findSome?_append,
    List.findSome?_append, hnone, Option.none_or, List.findSome?_singleton]

/-- If every address is trusted, nobody is a candidate. -/
theorem rightmost_eq_none (h : ∀ a, isTrusted trusted a = true) (value : Text) :
    rightmost trusted value = none := by
  rw [rightmost, List.findSome?_eq_none_iff]
  intro entry _
  rcases hentry : candidate trusted entry with _ | ip
  · rfl
  · obtain ⟨-, a, -, huntrusted⟩ := candidate_eq_some_iff.mp hentry
    rw [h a] at huntrusted
    exact absurd huntrusted.symm Bool.false_ne_true

theorem rightmost_of_address {value e : Text} {rest : List Text} (h : EndsWith trusted value e rest)
    {a : Address} (ha : ofText (strip e) = some a) : rightmost trusted value = some (strip e) := by
  obtain ⟨⟨left, hleft⟩, he, hrest⟩ := h
  have huntrusted : isTrusted trusted a = false := by
    rcases htrusted : isTrusted trusted a with _ | _
    · rfl
    · exact absurd ⟨a, ha, htrusted⟩ he
  rw [rightmost_of_entries hleft hrest, candidate_eq_some_iff.mpr ⟨rfl, a, ha, huntrusted⟩,
    Option.some_or]

/-! ### What the client can send -/

theorem exists_suffix_of_entries {value : Text} {left right : List Text}
    (h : entries value = left ++ right) (hne : right ≠ []) :
    ∃ suffix, suffix <:+ value ∧ entries suffix = right := by
  induction value generalizing left with
  | nil =>
    rw [entries, List.splitOn_nil] at h
    rcases left with _ | ⟨first, left⟩
    · exact ⟨[], List.suffix_refl [], h⟩
    · exact absurd (List.append_eq_nil_iff.mp (List.cons.inj h).2.symm).2 hne
  | cons c value ih =>
    rcases left with _ | ⟨first, left⟩
    · exact ⟨c :: value, List.suffix_refl _, h⟩
    · have htail : ∃ first', entries value = first' ++ right := by
        rw [entries, List.splitOn_cons_eq_if_modifyHead] at h
        split at h
        · exact ⟨left, (List.cons.inj h).2⟩
        · rcases hvalue : value.splitOn ',' with _ | ⟨head, tail⟩
          · exact absurd hvalue (List.splitOn_ne_nil _ _)
          · rw [hvalue, List.modifyHead_cons] at h
            refine ⟨head :: left, hvalue.trans ?_⟩
            rw [(List.cons.inj h).2]
            rfl
      obtain ⟨first', hfirst⟩ := htail
      obtain ⟨suffix, hsuffix, hentries⟩ := ih hfirst
      exact ⟨suffix, hsuffix.trans (List.suffix_cons c value), hentries⟩

/-- The request with another header. -/
def withHeader (scope : Scope) (value : Bytes) : Scope :=
  { scope with headers := [(asciiBytes "x-forwarded-for", value)] }

theorem forwardedFor_withHeader (scope : Scope) (value : Bytes) :
    forwardedFor (withHeader scope value) = (latin1 value).toList := by
  have hfind : (withHeader scope value).headers.reverse.find?
      (fun h ↦ decide (h.1 = asciiBytes "x-forwarded-for")) =
        some (asciiBytes "x-forwarded-for", value) :=
    List.find?_cons_of_pos (decide_eq_true rfl)
  rw [forwardedFor, hfind]

theorem exists_bytes_of_suffix {scope : Scope} {suffix : Text}
    (h : suffix <:+ forwardedFor scope) : ∃ value : Bytes, (latin1 value).toList = suffix := by
  have hbytes : ∃ value : Bytes, (latin1 value).toList = forwardedFor scope := by
    rw [forwardedFor]
    split
    · rename_i name value hfind
      exact ⟨value, rfl⟩
    · exact ⟨[], rfl⟩
  obtain ⟨value, hvalue⟩ := hbytes
  obtain ⟨left, hleft⟩ := h
  rw [latin1, String.toList_ofList] at hvalue
  obtain ⟨b, b', rfl, -, hb'⟩ := List.map_eq_append_iff.mp (hvalue.trans hleft.symm)
  exact ⟨b', by rw [latin1, String.toList_ofList, hb']⟩

theorem forall_addressChars {s : Text} (hs : s ⊆ addressChars) {p : Char → Bool}
    (hall : addressChars.all p = true) : ∀ c ∈ s, p c = true :=
  fun c hc ↦ List.all_eq_true.mp hall c (hs hc)

theorem toList_latin1_append (b b' : Bytes) :
    (latin1 (b ++ b')).toList = (latin1 b).toList ++ (latin1 b').toList := by
  rw [latin1, latin1, latin1, String.toList_ofList, String.toList_ofList, String.toList_ofList,
    List.map_append]

theorem latin1_text (a : Address) :
    (latin1 (a.text.map fun c ↦ UInt8.ofNat c.toNat)).toList = a.text := by
  have hchar := forall_addressChars (text_subset a)
    (p := fun c ↦ decide (Char.ofNat (UInt8.ofNat c.toNat).toNat = c)) (by decide)
  rw [latin1, String.toList_ofList, List.map_map]
  exact (List.map_congr_left fun c hc ↦ of_decide_eq_true (hchar c hc)).trans (List.map_id _)

theorem dropWhile_isSpace {s : Text} (h : ∀ c ∈ s, Workflows.isSpace c = false) :
    s.dropWhile Workflows.isSpace = s := by
  rcases s with _ | ⟨c, s⟩
  · rfl
  · rw [List.dropWhile_cons_of_neg]
    rw [h c List.mem_cons_self]
    exact Bool.false_ne_true

theorem strip_text (a : Address) : strip a.text = a.text := by
  have hchar := forall_addressChars (text_subset a)
    (p := fun c ↦ !Workflows.isSpace c) (by decide)
  have hspace : ∀ c ∈ a.text, Workflows.isSpace c = false :=
    fun c hc ↦ Bool.not_eq_true' _ ▸ hchar c hc
  rw [strip, dropWhile_isSpace hspace, List.rdropWhile, dropWhile_isSpace, List.reverse_reverse]
  exact fun c hc ↦ hspace c (List.mem_reverse.mp hc)

/-- If an entry is no address, someone who is not trusted can be put to the left of it. -/
theorem exists_impostor {scope : Scope} {e : Text} {rest : List Text}
    (h : EndsWith trusted (forwardedFor scope) e rest) (hmalformed : ofText (strip e) = none)
    {a : Address} (ha : isTrusted trusted a = false) :
    ∃ honest forged : Bytes,
      (EndsWith trusted (latin1 honest).toList e rest ∧
        rightmost trusted (latin1 honest).toList = none) ∧
      EndsWith trusted (latin1 forged).toList e rest ∧
        rightmost trusted (latin1 forged).toList = some a.text := by
  obtain ⟨⟨left, hleft⟩, he, hrest⟩ := h
  obtain ⟨suffix, hsuffix, hentries⟩ := exists_suffix_of_entries hleft (List.cons_ne_nil e rest)
  obtain ⟨value, hvalue⟩ := exists_bytes_of_suffix hsuffix
  have hnone : candidate trusted e = none := by
    rw [candidate, hmalformed]
  obtain ⟨forged, hforged⟩ : ∃ forged : Bytes, (latin1 forged).toList = a.text ++ ',' :: suffix := by
    refine ⟨(a.text.map fun c ↦ UInt8.ofNat c.toNat) ++ 44 :: value, ?_⟩
    rw [toList_latin1_append, latin1_text, ← hvalue, latin1, latin1, String.toList_ofList,
      String.toList_ofList, List.map_cons]
    rfl
  have hcomma : ',' ∉ a.text := fun hmem ↦ absurd (text_subset a hmem) (by decide)
  have hentries' : entries (a.text ++ ',' :: suffix) = [a.text] ++ e :: rest := by
    rw [entries, List.splitOn_append_cons_self, List.splitOn_eq_singleton hcomma, ← hentries]
    rfl
  have hcandidate : candidate trusted a.text = some a.text :=
    candidate_eq_some_iff.mpr ⟨(strip_text a).symm, a, ofText_text a, ha⟩
  refine ⟨value, forged, ⟨⟨⟨[], ?_⟩, he, hrest⟩, ?_⟩, ⟨⟨[a.text], ?_⟩, he, hrest⟩, ?_⟩
  · rw [hvalue, hentries, List.nil_append]
  · rw [hvalue, @rightmost_of_entries _ _ _ [] _ hentries hrest, hnone]
    rfl
  · exact (congrArg entries hforged).trans hentries'
  · rw [hforged, rightmost_of_entries hentries' hrest, hnone, List.reverse_singleton,
      List.findSome?_singleton, hcandidate]
    rfl

/-- **What the client controls.** It never matters what is further left, exactly if the entry from
which on requests agree is an address, or there is no address that is not trusted; and behind a peer
that is not trusted, the header does not matter at all. -/
theorem unaffected_iff (trusted : List Network) (scope : Scope) :
    Unaffected trusted scope ↔
      (FromProxy trusted scope → ∀ e rest, EndsWith trusted (forwardedFor scope) e rest →
        (∃ a, ofText (strip e) = some a) ∨ ∀ a, isTrusted trusted a = true) := by
  constructor
  · rintro h hproxy e rest hends
    by_contra hnot
    rw [not_or, not_forall] at hnot
    obtain ⟨hmalformed, a, huntrusted⟩ := hnot
    rw [Bool.not_eq_true] at huntrusted
    have hnone : ofText (strip e) = none := by
      rcases he : ofText (strip e) with _ | b
      · rfl
      · exact absurd ⟨b, he⟩ hmalformed
    obtain ⟨honest, forged, ⟨hends₁, hright₁⟩, hends₂, hright₂⟩ :=
      exists_impostor hends hnone huntrusted
    rw [← forwardedFor_withHeader scope] at hends₁ hright₁ hends₂ hright₂
    have hip₁ := h (withHeader scope honest) rfl fun _ ↦ ⟨e, rest, hends, hends₁⟩
    have hip₂ := h (withHeader scope forged) rfl fun _ ↦ ⟨e, rest, hends, hends₂⟩
    obtain ⟨ip, b, hclient, hb, htrusted⟩ := hproxy
    have hclient' : ∀ value, (withHeader scope value).client = some ip := fun _ ↦ hclient
    rw [getClientIp_of_fromProxy (hclient' honest) hb htrusted, hright₁] at hip₁
    rw [getClientIp_of_fromProxy (hclient' forged) hb htrusted, hright₂, ← hip₁] at hip₂
    -- the peer would be the one who is not trusted
    have hsame : ip.toList = a.text := by
      rw [← show String.ofList a.text = ip from hip₂, String.toList_ofList]
    rw [hsame, ofText_text, Option.some.injEq] at hb
    rw [← hb, huntrusted] at htrusted
    exact Bool.false_ne_true htrusted
  · intro h scope' hclient hagree
    by_cases hproxy : FromProxy trusted scope
    · obtain ⟨e, rest, hends, hends'⟩ := hagree hproxy
      have hsame : rightmost trusted (forwardedFor scope') =
          rightmost trusted (forwardedFor scope) := by
        rcases h hproxy e rest hends with ⟨a, ha⟩ | hall
        · rw [rightmost_of_address hends ha, rightmost_of_address hends' ha]
        · rw [rightmost_eq_none hall, rightmost_eq_none hall]
      obtain ⟨ip, a, hip, ha, htrusted⟩ := hproxy
      rw [getClientIp_of_fromProxy hip ha htrusted,
        getClientIp_of_fromProxy (hclient.trans hip) ha htrusted, hsame]
    · rw [getClientIp_of_not_fromProxy hproxy,
        getClientIp_of_not_fromProxy (mt (fromProxy_congr hclient).mp hproxy), hclient]

end

/-! ## An entry with a port -/

/-- A request from the proxy `10.0.0.1`. -/
def proxied (value : String) : Scope where
  headers := [(asciiBytes "x-forwarded-for", asciiBytes value)]
  client := some "10.0.0.1"

/-- The outermost proxy reports `203.0.113.7:4711`; the client has written what he likes before. -/
theorem not_forall_unaffected : ¬ ∀ (entries : List String) (scope : Scope),
    Unaffected (trustedProxies entries) scope := by
  intro h
  have hnot : ¬ Proxy (trustedProxies ["10.0.0.0/8"]) "203.0.113.7:4711".toList := by
    rintro ⟨a, ha, -⟩
    have hnone : ofText (strip "203.0.113.7:4711".toList) = none := by decide
    rw [hnone] at ha
    exact Option.some_ne_none a ha.symm
  have hclient := h ["10.0.0.0/8"] (proxied "203.0.113.7:4711") (proxied "1.1.1.1,203.0.113.7:4711")
    rfl fun _ ↦ ?_
  · exact absurd hclient (by decide)
  · refine ⟨"203.0.113.7:4711".toList, [], ⟨⟨[], ?_⟩, hnot, by simp⟩,
      ⟨["1.1.1.1".toList], ?_⟩, hnot, by simp⟩
    · decide
    · decide

end ForwardedFor

end ArgusMcp
