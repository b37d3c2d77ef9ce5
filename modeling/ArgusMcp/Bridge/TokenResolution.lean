import ArgusMcp.Bridge.TokenCaches
import ArgusMcp.Bridge.TokenStore

/-!
# Where a token comes from

`PKCEAuthProvider._resolve_token` of `bridge/auth/provider.py` tries three things in a row. A token
that was stored and is valid is used; if there is only a refresh token, this is exchanged for a new
token; and otherwise the user has to log in. What comes from the last two is put into the cache and
into the store.

The second thing may fail, and then the third is to be tried. But only the exceptions of the
operating system are caught, whereas a refresh token that was revoked is answered with an HTTP
status, for which `refresh_access_token` raises an exception of another kind. And a token with the
lifetime zero, or saved at time zero, is taken for one that never ends. `fallsThrough_iff` says when
each failure leads to the next thing.

## One call

Here a call runs alone, and its outside is one record of what the clocks read and of what the server,
the user and the disk do. What other calls can do in between is in the model of the provider.
-/

namespace ArgusMcp

namespace TokenResolution

open TokenStore (TokenSet WriteOutcome)

/-! ## The cache -/

/-- The class that `_token_cache_rs` exports: the one in Rust, or the one in Python where that is not
installed. -/
inductive Cache where
  | python (cache : TokenCaches.TokenCache String)
  | rust (platform : TokenCaches.Platform String) (cache : TokenCaches.RustTokenCache String)

namespace Cache

def get (cache : Cache) (now : ℕ) : TokenCaches.Reply String :=
  match cache with
  | .python c => .token (c.get now)
  | .rust _ c => c.get now

def set (cache : Cache) (token : String) (expiresIn : ExtRat) (now : ℕ) :
    Cache × TokenCaches.Reply String :=
  match cache with
  | .python c => (.python (c.set token expiresIn now), .returned)
  | .rust platform c =>
    (.rust platform (c.set platform token expiresIn now).1,
      (c.set platform token expiresIn now).2)

/-- The token that was set last. -/
def token : Cache → Option String
  | .python c => c.token
  | .rust _ c => c.token

def Accepts (cache : Cache) (token : String) (expiresIn : ExtRat) (now : ℕ) : Prop :=
  match cache with
  | .python _ => True
  | .rust platform c =>
    c.poisoned = false ∧ TokenCaches.Fits platform c.expiryBuffer token expiresIn now

theorem set_returned_iff (cache : Cache) (token : String) (expiresIn : ExtRat) (now : ℕ) :
    (cache.set token expiresIn now).2 = .returned ↔ cache.Accepts token expiresIn now := by
  rcases cache with c | ⟨platform, c⟩
  · exact iff_of_true rfl trivial
  · constructor
    · intro h
      exact TokenCaches.fits_of_set h
    · rintro ⟨hpoisoned, hencodes, hexpires, d, hd, hhorizon⟩
      exact congrArg Prod.snd (TokenCaches.set_of_fits hpoisoned hencodes hexpires hd hhorizon)

theorem token_set {cache : Cache} {token : String} {expiresIn : ExtRat} {now : ℕ}
    (h : cache.Accepts token expiresIn now) :
    (cache.set token expiresIn now).1.token = some token := by
  rcases cache with c | ⟨platform, c⟩
  · rfl
  · obtain ⟨hpoisoned, hencodes, hexpires, d, hd, hhorizon⟩ := h
    exact congrArg (fun r ↦ r.1.token)
      (TokenCaches.set_of_fits hpoisoned hencodes hexpires hd hhorizon)

end Cache

/-! ## The file -/

/-- The token file of the backend, if nobody else writes it. -/
inductive StoredFile where
  | absent
  | record (tokens : TokenSet) (savedAt : ℚ)
  /-- A write that was cut off. -/
  | corrupt

namespace StoredFile

/-- What the store finds in the directory. -/
def content : StoredFile → Option TokenStore.FileContent
  | .absent => none
  | .record tokens savedAt => some (.json (.dict (TokenStore.record tokens savedAt)))
  | .corrupt => some .malformed

def load (file : StoredFile) (now : ℚ) : Option TokenSet :=
  match file with
  | .record tokens savedAt =>
    if TokenStore.Expired tokens savedAt now then
      if tokens.refreshToken ≠ "" then
        some { tokens with accessToken := "", expiresIn := .fin 0 }
      else none
    else some tokens
  | _ => none

/-- `TokenStore.save`. -/
def write (file : StoredFile) (tokens : TokenSet) (now : ℚ) : WriteOutcome → StoredFile
  | .written => .record tokens now
  | .failed => file
  | .truncated => .corrupt

def Holds (file : StoredFile) (tokens : TokenSet) : Prop :=
  ∃ savedAt, file = .record tokens savedAt

end StoredFile

/-! ## The server and the user -/

/-- A reply that can be made a `TokenSet` of; what is missing in it has a default. -/
structure Payload where
  accessToken : String
  tokenType : Option String := none
  refreshToken : Option String := none
  expiresIn : Option ExtRat := none
  scope : Option String := none

inductive Body where
  | payload (p : Payload)
  /-- No JSON, no access token, or a lifetime that is no number. -/
  | unusable

/-- What becomes of a request to the token endpoint. -/
inductive Response where
  | answered (status : ℕ) (body : Body)
  | transportError
  | osError

inductive RefreshError where
  | osError
  | transportError
  | httpStatusError (status : ℕ)
  /-- `KeyError`, `TypeError` or `ValueError`. -/
  | unusable
  deriving DecidableEq

/-- `TokenSet`, made of a reply to a refresh token: without a new one, this stays. -/
def Payload.toTokenSet (p : Payload) (refreshToken : String) : TokenSet where
  accessToken := p.accessToken
  tokenType := p.tokenType.getD "Bearer"
  refreshToken := p.refreshToken.getD refreshToken
  expiresIn := p.expiresIn.getD (.fin 3600)
  scope := p.scope.getD ""

/-- What is made of the body of a reply. -/
def Body.toTokenSet (refreshToken : String) : Body → Except RefreshError TokenSet
  | .payload p => .ok (p.toTokenSet refreshToken)
  | .unusable => .error .unusable

def refreshAccessToken (refreshToken : String) : Response → Except RefreshError TokenSet
  | .osError => .error .osError
  | .transportError => .error .transportError
  | .answered status body =>
    if 200 ≤ status ∧ status ≤ 299 then body.toTokenSet refreshToken
    else .error (.httpStatusError status)

/-- How `PKCEFlow.execute` ends. -/
inductive FlowEnd where
  | granted (tokens : TokenSet)
  | raised

structure Outside where
  /-- `time.time()` in `load`. -/
  loadAt : ℚ
  refresh : Response
  flow : FlowEnd
  /-- `time.monotonic()` in `set`. -/
  setAt : ℕ
  /-- `time.time()` in `save`. -/
  saveAt : ℚ
  outcome : WriteOutcome

/-! ## Resolving -/

inductive Raised where
  | cache (reply : TokenCaches.Reply String)
  | refresh (e : RefreshError)
  | flow
  deriving DecidableEq

/-- How a call ends, and what it has done. -/
structure Run where
  result : Except Raised String
  cache : Cache
  file : StoredFile
  refreshSent : Bool
  flowStarted : Bool

section

variable (cache : Cache) (file : StoredFile) (outside : Outside)

/-- Tokens are put into the cache, and what comes next leaves this file and returns the access token.
If the cache does not take them, its exception goes through. -/
def remember (tokens : TokenSet) (file' : StoredFile) (refreshSent flowStarted : Bool) : Run :=
  let s := cache.set tokens.accessToken tokens.expiresIn outside.setAt
  match s.2 with
  | .returned => ⟨.ok tokens.accessToken, s.1, file', refreshSent, flowStarted⟩
  | reply => ⟨.error (.cache reply), s.1, file, refreshSent, flowStarted⟩

/-- New tokens, which are put into the store as well. -/
def keep (tokens : TokenSet) (refreshSent flowStarted : Bool) : Run :=
  remember cache file outside tokens (file.write tokens outside.saveAt outside.outcome) refreshSent
    flowStarted

def interactive (refreshSent : Bool) : Run :=
  match outside.flow with
  | .granted tokens => keep cache file outside tokens refreshSent true
  | .raised => ⟨.error .flow, cache, file, refreshSent, true⟩

/-- The exchange of a refresh token. `OSError` is the only exception that is caught. -/
def refresh (refreshToken : String) : Run :=
  match refreshAccessToken refreshToken outside.refresh with
  | .ok tokens => keep cache file outside tokens true false
  | .error .osError => interactive cache file outside true
  | .error e => ⟨.error (.refresh e), cache, file, true, false⟩

def resolveToken : Run :=
  match file.load outside.loadAt with
  | none => interactive cache file outside false
  | some stored =>
    if stored.accessToken ≠ "" then remember cache file outside stored file false false
    else if stored.refreshToken ≠ "" then refresh cache file outside stored.refreshToken
    else interactive cache file outside false

/-- The header with the token. -/
def Run.bearer (run : Run) : Run := { run with result := run.result.map ("Bearer " ++ ·) }

/-- A look into the cache, before something else is done. The empty string does not count. -/
def lookup (now : ℕ) (next : Run) : Run :=
  match cache.get now with
  | .token none => next
  | .token (some t) => if t ≠ "" then ⟨.ok ("Bearer " ++ t), cache, file, false, false⟩ else next
  | reply => ⟨.error (.cache reply), cache, file, false, false⟩

/-- `get_headers`. The cache is asked before the lock is taken, and again behind it. -/
def getHeaders (askedAt : ℕ × ℕ) : Run :=
  lookup cache file askedAt.1
    (lookup cache file askedAt.2 (resolveToken cache file outside).bearer)

end

/-! ## Falling through -/

namespace StoredFile

/-- The lifetime of the tokens is over, or will be in a minute. -/
def Over (tokens : TokenSet) (savedAt now : ℚ) : Prop :=
  ExtRat.ble (tokens.expiresIn - .fin 60) (.fin now - .fin savedAt) = true

/-- The file has tokens that can be used as they are. -/
def Valid (file : StoredFile) (now : ℚ) (tokens : TokenSet) : Prop :=
  ∃ savedAt, file = .record tokens savedAt ∧ ¬ Over tokens savedAt now ∧ tokens.accessToken ≠ ""

/-- The file has a refresh token, and nothing better. -/
def Refreshable (file : StoredFile) (now : ℚ) (refreshToken : String) : Prop :=
  refreshToken ≠ "" ∧ ∃ tokens savedAt, file = .record tokens savedAt ∧
    tokens.refreshToken = refreshToken ∧
      (Over tokens savedAt now ∨ tokens.accessToken = "")

/-- Neither number that `load` computes the end of the tokens from is zero, which it takes for
missing, and then for no end at all. -/
def Told (file : StoredFile) (now : ℚ) : Prop :=
  ∀ tokens savedAt, file = .record tokens savedAt → Over tokens savedAt now →
    tokens.accessToken ≠ "" → savedAt ≠ 0 ∧ tokens.expiresIn ≠ .fin 0

end StoredFile

/-- The server exchanges the refresh token for these tokens. -/
def Response.Grants (response : Response) (refreshToken : String) (tokens : TokenSet) : Prop :=
  ∃ status p, response = .answered status (.payload p) ∧ 200 ≤ status ∧ status ≤ 299 ∧
    tokens = p.toTokenSet refreshToken

/-- The tokens are returned, and they are in the cache and in the store. -/
def Run.Delivers (run : Run) (tokens : TokenSet) : Prop :=
  run.result = .ok tokens.accessToken ∧ run.cache.token = some tokens.accessToken ∧
    run.file.Holds tokens

/-- Nothing stored can be used, and no refresh token can be exchanged. -/
def OnlyFlow (file : StoredFile) (outside : Outside) : Prop :=
  (∀ tokens, ¬ file.Valid outside.loadAt tokens) ∧
    ∀ r tokens, file.Refreshable outside.loadAt r → ¬ outside.refresh.Grants r tokens

/-- What is expected of a call: a stored valid token is returned; else the one that the refresh token
is exchanged for; else the one of a new flow; and `get_headers` does not fail behind a refresh that
failed unless the flow was tried. -/
structure FallsThrough (cache : Cache) (file : StoredFile) (outside : Outside) : Prop where
  stored : ∀ tokens, file.Valid outside.loadAt tokens →
    (resolveToken cache file outside).result = .ok tokens.accessToken
  refreshed : ∀ r tokens, file.Refreshable outside.loadAt r → outside.refresh.Grants r tokens →
    (resolveToken cache file outside).Delivers tokens ∧
      (resolveToken cache file outside).refreshSent = true
  flow : OnlyFlow file outside → (resolveToken cache file outside).flowStarted = true ∧
    ∀ tokens, outside.flow = .granted tokens → (resolveToken cache file outside).Delivers tokens
  tried : ∀ askedAt e, (getHeaders cache file outside askedAt).refreshSent = true →
    (∀ r tokens, ¬ outside.refresh.Grants r tokens) →
    (getHeaders cache file outside askedAt).result = .error e →
    (getHeaders cache file outside askedAt).flowStarted = true

/-- The cache takes the tokens, and the disk as well, or it has them already. -/
def Keeps (cache : Cache) (file : StoredFile) (outside : Outside) (tokens : TokenSet) : Prop :=
  cache.Accepts tokens.accessToken tokens.expiresIn outside.setAt ∧
    (outside.outcome = .written ∨ outside.outcome = .failed ∧ file.Holds tokens)

/-- Nothing goes wrong but what is caught: tokens that are over can be told, those that are to be
returned can be kept, and where a refresh token is not exchanged, this is the operating system's
fault. -/
structure Unhindered (cache : Cache) (file : StoredFile) (outside : Outside) : Prop where
  told : file.Told outside.loadAt
  stored : ∀ tokens, file.Valid outside.loadAt tokens →
    cache.Accepts tokens.accessToken tokens.expiresIn outside.setAt
  refreshed : ∀ r tokens, file.Refreshable outside.loadAt r → outside.refresh.Grants r tokens →
    Keeps cache file outside tokens
  caught : ∀ r, file.Refreshable outside.loadAt r →
    (∀ tokens, ¬ outside.refresh.Grants r tokens) → outside.refresh = .osError
  flow : OnlyFlow file outside → ∀ tokens, outside.flow = .granted tokens →
    Keeps cache file outside tokens

theorem refreshAccessToken_eq_ok_iff {refreshToken : String} {response : Response}
    {tokens : TokenSet} :
    refreshAccessToken refreshToken response = .ok tokens ↔ response.Grants refreshToken tokens := by
  rcases response with ⟨status, body⟩ | _ | _
  · rw [refreshAccessToken]
    split
    · rename_i hstatus
      rcases body with p | _
      · constructor
        · intro h
          exact ⟨status, p, rfl, hstatus.1, hstatus.2, (Except.ok.inj h).symm⟩
        · rintro ⟨status', p', heq, -, -, rfl⟩
          obtain rfl := Body.payload.inj (Response.answered.inj heq).2
          rfl
      · refine iff_of_false (by simp [Body.toTokenSet]) ?_
        rintro ⟨status', p', heq, -⟩
        exact absurd (Response.answered.inj heq).2 (by simp)
    · rename_i hstatus
      refine iff_of_false (by simp) ?_
      rintro ⟨status', p', heq, hlow, hhigh, -⟩
      obtain rfl := (Response.answered.inj heq).1
      exact hstatus ⟨hlow, hhigh⟩
  · exact iff_of_false (by simp [refreshAccessToken]) (by simp [Response.Grants])
  · exact iff_of_false (by simp [refreshAccessToken]) (by simp [Response.Grants])

theorem refreshAccessToken_eq_osError_iff {refreshToken : String} {response : Response} :
    refreshAccessToken refreshToken response = .error .osError ↔ response = .osError := by
  rcases response with ⟨status, body⟩ | _ | _
  · refine iff_of_false (fun h ↦ ?_) (by simp)
    rw [refreshAccessToken] at h
    split at h
    · rcases body with p | _
      · exact absurd h (by simp [Body.toTokenSet])
      · exact absurd h (by simp [Body.toTokenSet])
    · exact absurd h (by simp)
  · exact iff_of_false (by simp [refreshAccessToken]) (by simp)
  · exact iff_of_true rfl rfl

section

variable {cache : Cache} {file : StoredFile} {outside : Outside}

theorem remember_result_iff {tokens : TokenSet} {file' : StoredFile} {refreshSent flowStarted : Bool}
    {t : String} :
    (remember cache file outside tokens file' refreshSent flowStarted).result = .ok t ↔
      cache.Accepts tokens.accessToken tokens.expiresIn outside.setAt ∧ tokens.accessToken = t := by
  rw [← Cache.set_returned_iff cache tokens.accessToken, remember]
  split
  · rename_i h
    rw [h, Except.ok.injEq]
    exact (and_iff_right rfl).symm
  · rename_i h
    exact iff_of_false (by simp) fun hand ↦ h hand.1

theorem remember_of_accepts {tokens : TokenSet}
    (h : cache.Accepts tokens.accessToken tokens.expiresIn outside.setAt) (file' : StoredFile)
    (refreshSent flowStarted : Bool) :
    remember cache file outside tokens file' refreshSent flowStarted =
      ⟨.ok tokens.accessToken, (cache.set tokens.accessToken tokens.expiresIn outside.setAt).1,
        file', refreshSent, flowStarted⟩ := by
  rw [remember, (Cache.set_returned_iff cache tokens.accessToken _ _).mpr h]

theorem remember_flowStarted (tokens : TokenSet) (file' : StoredFile)
    (refreshSent flowStarted : Bool) :
    (remember cache file outside tokens file' refreshSent flowStarted).flowStarted =
      flowStarted := by
  rw [remember]
  split
  · rfl
  · rfl

theorem remember_refreshSent (tokens : TokenSet) (file' : StoredFile)
    (refreshSent flowStarted : Bool) :
    (remember cache file outside tokens file' refreshSent flowStarted).refreshSent =
      refreshSent := by
  rw [remember]
  split
  · rfl
  · rfl

theorem holds_write_iff {tokens : TokenSet} {now : ℚ} {outcome : WriteOutcome} :
    (file.write tokens now outcome).Holds tokens ↔
      outcome = .written ∨ outcome = .failed ∧ file.Holds tokens := by
  rcases outcome with _ | _ | _
  · exact iff_of_true ⟨now, rfl⟩ (Or.inl rfl)
  · constructor
    · intro h
      exact Or.inr ⟨rfl, h⟩
    · rintro (h | ⟨-, h⟩)
      · exact absurd h (by simp)
      · exact h
  · refine iff_of_false ?_ (by simp)
    rintro ⟨savedAt, h⟩
    exact absurd h (by simp [StoredFile.write])

theorem delivers_keep_iff {tokens : TokenSet} {refreshSent flowStarted : Bool} :
    (keep cache file outside tokens refreshSent flowStarted).Delivers tokens ↔
      Keeps cache file outside tokens := by
  rw [keep, Run.Delivers, remember_result_iff, Keeps]
  constructor
  · rintro ⟨⟨haccepts, -⟩, -, hholds⟩
    rw [remember_of_accepts haccepts] at hholds
    exact ⟨haccepts, holds_write_iff.mp hholds⟩
  · rintro ⟨haccepts, hdisk⟩
    rw [remember_of_accepts haccepts]
    exact ⟨⟨haccepts, rfl⟩, Cache.token_set haccepts, holds_write_iff.mpr hdisk⟩

theorem interactive_flowStarted (refreshSent : Bool) :
    (interactive cache file outside refreshSent).flowStarted = true := by
  rw [interactive]
  split
  · exact remember_flowStarted _ _ _ _
  · rfl

theorem delivers_interactive_iff {tokens : TokenSet} (h : outside.flow = .granted tokens)
    (refreshSent : Bool) : (interactive cache file outside refreshSent).Delivers tokens ↔
      Keeps cache file outside tokens := by
  rw [interactive, h]
  exact delivers_keep_iff

/-! ### Which of the three -/

theorem expired_iff {tokens : TokenSet} {savedAt now : ℚ} :
    TokenStore.Expired tokens savedAt now ↔
      (savedAt ≠ 0 ∧ tokens.expiresIn ≠ .fin 0) ∧ StoredFile.Over tokens savedAt now :=
  and_assoc.symm

theorem StoredFile.Told.expired {tokens : TokenSet} {savedAt now : ℚ}
    (h : (StoredFile.record tokens savedAt).Told now) (hover : StoredFile.Over tokens savedAt now)
    (haccess : tokens.accessToken ≠ "") : TokenStore.Expired tokens savedAt now :=
  expired_iff.mpr ⟨h tokens savedAt rfl hover haccess, hover⟩

theorem resolveToken_of_not_expired {tokens : TokenSet} {savedAt : ℚ}
    (hfresh : ¬ TokenStore.Expired tokens savedAt outside.loadAt)
    (haccess : tokens.accessToken ≠ "") :
    resolveToken cache (.record tokens savedAt) outside =
      remember cache (.record tokens savedAt) outside tokens (.record tokens savedAt) false
        false := by
  have hload : (StoredFile.record tokens savedAt).load outside.loadAt = some tokens := if_neg hfresh
  rw [resolveToken, hload]
  exact if_pos haccess

theorem resolveToken_of_valid {tokens : TokenSet} (h : file.Valid outside.loadAt tokens) :
    resolveToken cache file outside = remember cache file outside tokens file false false := by
  obtain ⟨savedAt, rfl, hfresh, haccess⟩ := h
  exact resolveToken_of_not_expired (fun hexpired ↦ hfresh (expired_iff.mp hexpired).2) haccess

theorem resolveToken_of_refreshable (htold : file.Told outside.loadAt) {r : String}
    (h : file.Refreshable outside.loadAt r) :
    resolveToken cache file outside = refresh cache file outside r := by
  obtain ⟨hr, tokens, savedAt, rfl, rfl, hover⟩ := h
  by_cases hexpired : TokenStore.Expired tokens savedAt outside.loadAt
  · have hload : (StoredFile.record tokens savedAt).load outside.loadAt =
        some { tokens with accessToken := "", expiresIn := .fin 0 } :=
      (if_pos hexpired).trans (if_pos hr)
    rw [resolveToken, hload]
    exact (if_neg (not_not.mpr rfl)).trans (if_pos hr)
  · have hload : (StoredFile.record tokens savedAt).load outside.loadAt = some tokens :=
      if_neg hexpired
    have haccess : tokens.accessToken = "" := by
      by_contra haccess
      exact hexpired (htold.expired (hover.resolve_right haccess) haccess)
    rw [resolveToken, hload]
    exact (if_neg (not_not.mpr haccess)).trans (if_pos hr)

theorem resolveToken_of_neither (htold : file.Told outside.loadAt)
    (hvalid : ∀ tokens, ¬ file.Valid outside.loadAt tokens)
    (hrefresh : ∀ r, ¬ file.Refreshable outside.loadAt r) :
    resolveToken cache file outside = interactive cache file outside false := by
  rw [resolveToken]
  split
  · rfl
  · rename_i stored hload
    rcases file with _ | ⟨tokens, savedAt⟩ | _
    · exact absurd hload (by simp [StoredFile.load])
    · -- What is not valid is over or has no access token, and then there is no refresh token either.
      have hover : StoredFile.Over tokens savedAt outside.loadAt ∨ tokens.accessToken = "" := by
        by_contra hnot
        rw [not_or] at hnot
        exact hvalid tokens ⟨savedAt, rfl, hnot.1, hnot.2⟩
      have hnone : tokens.refreshToken = "" := by
        by_contra hr
        exact hrefresh tokens.refreshToken ⟨hr, tokens, savedAt, rfl, rfl, hover⟩
      rw [StoredFile.load] at hload
      split at hload
      · rw [if_neg (not_not.mpr hnone)] at hload
        exact absurd hload.symm (Option.some_ne_none stored)
      · rename_i hfresh
        obtain rfl := Option.some.inj hload
        have haccess : tokens.accessToken = "" := by
          by_contra haccess
          exact hfresh (htold.expired (hover.resolve_right haccess) haccess)
        rw [if_neg (not_not.mpr haccess), if_neg (not_not.mpr hnone)]
    · exact absurd hload (by simp [StoredFile.load])

theorem not_refreshable_of_valid {now : ℚ} {tokens : TokenSet} (h : file.Valid now tokens)
    (r : String) : ¬ file.Refreshable now r := by
  obtain ⟨savedAt, rfl, hfresh, haccess⟩ := h
  rintro ⟨-, tokens', savedAt', heq, -, hover⟩
  obtain ⟨rfl, rfl⟩ := StoredFile.record.inj heq
  rcases hover with hexpired | hempty
  · exact hfresh hexpired
  · exact haccess hempty

theorem refreshable_unique {now : ℚ} {r r' : String} (h : file.Refreshable now r)
    (h' : file.Refreshable now r') : r = r' := by
  obtain ⟨-, tokens, savedAt, rfl, rfl, -⟩ := h
  obtain ⟨-, tokens', savedAt', heq, rfl, -⟩ := h'
  obtain ⟨rfl, -⟩ := StoredFile.record.inj heq
  rfl

theorem refresh_of_grants {r : String} {tokens : TokenSet} (h : outside.refresh.Grants r tokens) :
    refresh cache file outside r = keep cache file outside tokens true false := by
  rw [refresh, refreshAccessToken_eq_ok_iff.mpr h]

theorem refresh_of_osError {r : String} (h : outside.refresh = .osError) :
    refresh cache file outside r = interactive cache file outside true := by
  rw [refresh, refreshAccessToken_eq_osError_iff.mpr h]

theorem refresh_flowStarted_iff {r : String} (h : ∀ tokens, ¬ outside.refresh.Grants r tokens) :
    (refresh cache file outside r).flowStarted = true ↔ outside.refresh = .osError := by
  constructor
  · intro hstarted
    rw [refresh] at hstarted
    split at hstarted
    · rename_i tokens hok
      exact absurd (refreshAccessToken_eq_ok_iff.mp hok) (h tokens)
    · rename_i hos
      exact refreshAccessToken_eq_osError_iff.mp hos
    · exact absurd hstarted Bool.false_ne_true
  · intro hos
    rw [refresh_of_osError hos]
    exact interactive_flowStarted true

theorem lookup_of_refreshSent {now : ℕ} {next : Run}
    (h : (lookup cache file now next).refreshSent = true) : lookup cache file now next = next := by
  rw [lookup] at h ⊢
  split at h
  · rfl
  · rename_i t hget
    split at h
    · exact absurd h Bool.false_ne_true
    · rename_i hempty
      exact if_neg hempty
  · exact absurd h Bool.false_ne_true

theorem getHeaders_of_refreshSent {askedAt : ℕ × ℕ}
    (h : (getHeaders cache file outside askedAt).refreshSent = true) :
    getHeaders cache file outside askedAt = (resolveToken cache file outside).bearer := by
  have houter := lookup_of_refreshSent h
  rw [getHeaders, houter] at h
  exact houter.trans (lookup_of_refreshSent h)

theorem interactive_refreshSent (refreshSent : Bool) :
    (interactive cache file outside refreshSent).refreshSent = refreshSent := by
  rw [interactive]
  split
  · exact remember_refreshSent _ _ _ _
  · rfl

theorem exists_refreshable_of_refreshSent (htold : file.Told outside.loadAt)
    (h : (resolveToken cache file outside).refreshSent = true) :
    ∃ r, file.Refreshable outside.loadAt r := by
  by_contra hnone
  rw [not_exists] at hnone
  by_cases hvalid : ∃ tokens, file.Valid outside.loadAt tokens
  · obtain ⟨tokens, hvalid⟩ := hvalid
    rw [resolveToken_of_valid hvalid, remember_refreshSent] at h
    exact Bool.false_ne_true h
  · rw [resolveToken_of_neither htold (not_exists.mp hvalid) hnone, interactive_refreshSent] at h
    exact Bool.false_ne_true h

theorem resolveToken_of_onlyFlow (htold : file.Told outside.loadAt) (h : OnlyFlow file outside)
    (hcaught : ∀ r, file.Refreshable outside.loadAt r → outside.refresh = .osError) :
    ∃ refreshSent, resolveToken cache file outside = interactive cache file outside refreshSent := by
  by_cases hrefresh : ∃ r, file.Refreshable outside.loadAt r
  · obtain ⟨r, hrefresh⟩ := hrefresh
    refine ⟨true, ?_⟩
    rw [resolveToken_of_refreshable htold hrefresh, refresh_of_osError (hcaught r hrefresh)]
  · exact ⟨false, resolveToken_of_neither htold h.1 (not_exists.mp hrefresh)⟩

theorem onlyFlow_of_refreshable {r : String} (h : file.Refreshable outside.loadAt r)
    (hdenied : ∀ tokens, ¬ outside.refresh.Grants r tokens) : OnlyFlow file outside := by
  refine ⟨fun tokens hvalid ↦ not_refreshable_of_valid hvalid r h, fun r' tokens h' ↦ ?_⟩
  obtain rfl := refreshable_unique h h'
  exact hdenied tokens

theorem FallsThrough.told (h : FallsThrough cache file outside) : file.Told outside.loadAt := by
  rintro tokens savedAt rfl hover haccess
  by_contra hzero
  have hrun := @resolveToken_of_not_expired cache outside tokens savedAt
    (fun hexpired ↦ hzero (expired_iff.mp hexpired).1) haccess
  by_cases honly : OnlyFlow (.record tokens savedAt) outside
  · have hstarted := (h.flow honly).1
    rw [hrun, remember_flowStarted] at hstarted
    exact Bool.false_ne_true hstarted
  · rw [OnlyFlow, not_and_or, not_forall, not_forall] at honly
    rcases honly with ⟨tokens', hvalid⟩ | ⟨r, hgrants⟩
    · obtain ⟨savedAt', heq, hfresh, -⟩ := not_not.mp hvalid
      obtain ⟨rfl, rfl⟩ := StoredFile.record.inj heq
      exact hfresh hover
    · push Not at hgrants
      obtain ⟨tokens', hrefresh, hgrants⟩ := hgrants
      have hsent := (h.refreshed r tokens' hrefresh hgrants).2
      rw [hrun, remember_refreshSent] at hsent
      exact Bool.false_ne_true hsent

/-- **When one thing leads to the next.** A stored valid token is used, else the refresh token is
exchanged, else the user logs in, and what is new is in the cache and in the store, exactly if
nothing goes wrong but what is caught. -/
theorem fallsThrough_iff (cache : Cache) (file : StoredFile) (outside : Outside) :
    FallsThrough cache file outside ↔ Unhindered cache file outside := by
  constructor
  · intro h
    have htold := h.told
    have hcaught : ∀ r, file.Refreshable outside.loadAt r →
        (∀ tokens, ¬ outside.refresh.Grants r tokens) → outside.refresh = .osError := by
      intro r hrefresh hdenied
      have hstarted := (h.flow (onlyFlow_of_refreshable hrefresh hdenied)).1
      rw [resolveToken_of_refreshable htold hrefresh] at hstarted
      exact (refresh_flowStarted_iff hdenied).mp hstarted
    refine ⟨htold, fun tokens hvalid ↦ ?_, fun r tokens hrefresh hgrants ↦ ?_, hcaught,
      fun honly tokens hflow ↦ ?_⟩
    · have hresult := h.stored tokens hvalid
      rw [resolveToken_of_valid hvalid] at hresult
      exact (remember_result_iff.mp hresult).1
    · have hdelivers := (h.refreshed r tokens hrefresh hgrants).1
      rw [resolveToken_of_refreshable htold hrefresh, refresh_of_grants hgrants] at hdelivers
      exact delivers_keep_iff.mp hdelivers
    · have hdelivers := (h.flow honly).2 tokens hflow
      obtain ⟨refreshSent, hrun⟩ := @resolveToken_of_onlyFlow cache _ _ htold honly
        fun r hrefresh ↦ hcaught r hrefresh fun tokens ↦ honly.2 r tokens hrefresh
      rw [hrun] at hdelivers
      exact (delivers_interactive_iff hflow refreshSent).mp hdelivers
  · intro h
    have hcaught : OnlyFlow file outside → ∀ r, file.Refreshable outside.loadAt r →
        outside.refresh = .osError :=
      fun honly r hrefresh ↦ h.caught r hrefresh fun tokens ↦ honly.2 r tokens hrefresh
    have hstarted : OnlyFlow file outside →
        (resolveToken cache file outside).flowStarted = true := by
      intro honly
      obtain ⟨refreshSent, hrun⟩ := @resolveToken_of_onlyFlow cache _ _ h.told honly (hcaught honly)
      rw [hrun]
      exact interactive_flowStarted refreshSent
    refine ⟨fun tokens hvalid ↦ ?_, fun r tokens hrefresh hgrants ↦ ?_, fun honly ↦ ?_,
      fun askedAt e hsent hdenied hresult ↦ ?_⟩
    · rw [resolveToken_of_valid hvalid]
      exact remember_result_iff.mpr ⟨h.stored tokens hvalid, rfl⟩
    · rw [resolveToken_of_refreshable h.told hrefresh, refresh_of_grants hgrants]
      exact ⟨delivers_keep_iff.mpr (h.refreshed r tokens hrefresh hgrants),
        remember_refreshSent _ _ _ _⟩
    · refine ⟨hstarted honly, fun tokens hflow ↦ ?_⟩
      obtain ⟨refreshSent, hrun⟩ := @resolveToken_of_onlyFlow cache _ _ h.told honly (hcaught honly)
      rw [hrun]
      exact (delivers_interactive_iff hflow refreshSent).mpr (h.flow honly tokens hflow)
    · have hrun := getHeaders_of_refreshSent hsent
      rw [hrun] at hsent ⊢
      obtain ⟨r, hrefresh⟩ := exists_refreshable_of_refreshSent h.told hsent
      exact hstarted (onlyFlow_of_refreshable hrefresh (hdenied r))

end

/-! ## A token that was revoked -/

def expiredTokens : TokenSet where
  accessToken := "old"
  refreshToken := "r"

/-- The server does not know the refresh token any more, and the user would log in. -/
def revoked : Outside where
  loadAt := 10000
  refresh := .answered 400 .unusable
  flow := .granted { accessToken := "new" }
  setAt := 0
  saveAt := 10001
  outcome := .written

theorem not_forall_fallsThrough : ¬ ∀ (cache : Cache) (file : StoredFile) (outside : Outside),
    FallsThrough cache file outside := by
  intro h
  have hrefresh : StoredFile.Refreshable (.record expiredTokens 1) revoked.loadAt "r" := by
    refine ⟨by decide, expiredTokens, 1, rfl, rfl, Or.inl ?_⟩
    apply decide_eq_true
    norm_num [revoked]
  have hdenied : ∀ tokens, ¬ revoked.refresh.Grants "r" tokens := by
    rintro tokens ⟨status, p, heq, -⟩
    exact absurd (Response.answered.inj heq).2 (by simp)
  have hfalls := h (.python (.new (.fin 60))) (.record expiredTokens 1) revoked
  have hstarted := (hfalls.flow (onlyFlow_of_refreshable hrefresh hdenied)).1
  rw [resolveToken_of_refreshable hfalls.told hrefresh] at hstarted
  exact absurd ((refresh_flowStarted_iff hdenied).mp hstarted) (by simp [revoked])

/-! ## The store -/

/-- What the provider looks at: the lifetime only if there is an access token. -/
def seen (l : TokenStore.LoadedSet) :
    TokenStore.Json × TokenStore.Json × TokenStore.Json × TokenStore.Json ×
      Option TokenStore.Json :=
  (l.accessToken, l.tokenType, l.refreshToken, l.scope,
    if TokenStore.isTrue l.accessToken then some l.expiresIn else none)

/-- **What is loaded.** Of a file that nobody else writes, the provider sees what the store loads. -/
theorem load_eq {dir : TokenStore.Directory} {backendName : String} {file : StoredFile}
    (h : dir.get? (TokenStore.pathFor backendName) = file.content) (now : ℚ) :
    (TokenStore.load dir backendName .granted now).map (Option.map seen) =
      .ok ((file.load now).map fun tokens ↦ seen tokens.loaded) := by
  rw [TokenStore.load, h]
  rcases file with _ | ⟨tokens, savedAt⟩ | _
  · rfl
  · rw [StoredFile.content, StoredFile.load]
    dsimp only
    rw [TokenStore.readFile_record_eq]
    split
    · rw [TokenStore.expiredSet_record]
      split
      · rfl
      · rfl
    · rfl
  · rfl

/-- **What is saved.** A write does to the file what the store does to the directory. -/
theorem save_eq {dir : TokenStore.Directory} {backendName : String} {file : StoredFile}
    (h : dir.get? (TokenStore.pathFor backendName) = file.content) (tokens : TokenSet) (now : ℚ)
    (outcome : WriteOutcome) :
    (TokenStore.save dir backendName tokens now outcome).get? (TokenStore.pathFor backendName) =
      (file.write tokens now outcome).content := by
  rcases outcome with _ | _ | _
  · exact Dict.get?_set_self _ _ _
  · exact h
  · exact Dict.get?_set_self _ _ _

end TokenResolution

end ArgusMcp
