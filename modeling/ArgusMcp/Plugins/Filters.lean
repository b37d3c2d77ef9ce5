import ArgusMcp.Plugins.Hooks
import ArgusMcp.Plugins.Secrets

/-!
# Filters for results

Three plugins look at the answer to a tool call: the one that looks for secrets, `PiiFilterPlugin`
of `plugins/builtins/pii_filter.py`, which masks what could identify a person, and `ClamAVPlugin` of
`plugins/external/clamav.py`, which has the answer scanned for viruses. All three are written for
answers that are texts. What a session returns is an object with a list of blocks, some of which are
texts; to the plugins it is something else, and they pass it on.

`prescribe` says what the filters would make of a text, in the order of their priorities, and
`runHook_text` that this is what they make of one. Of a result with blocks they make nothing
(`runHook_callToolResult`), and so the texts in it are as they should be only if the filters would
have left them so: `filtered_iff`.

The two engines of the PII filter have the same patterns, and differ in what is a digit, a letter
and white space. The tables of letters are parameters. What the daemon that scans replies is a
function of the data it is given. An answer that is a sequence of bytes is not among the results.
-/

namespace ArgusMcp

namespace Filters

open Hooks
open Regex (cls seq alt many few start stop)
open Secrets (seqs lit isSpace)

/-! ## Patterns for PII -/

/-- What an engine takes for a decimal digit, `\d`, and for a character of a word, `\w`. -/
structure CharClasses where
  isDecimal : Char → Bool
  isWord : Char → Bool

/-- `[a-zA-Z0-9_.+-]`. -/
def isLocalPart (c : Char) : Bool := c.isAlphanum || "_.+-".toList.contains c

/-- `[a-zA-Z0-9-]`. -/
def isLabel (c : Char) : Bool := c.isAlphanum || c = '-'

/-- `[a-zA-Z0-9-.]`. -/
def isDomain (c : Char) : Bool := c.isAlphanum || c = '-' || c = '.'

/-- `[-.\s]?`. -/
def separator (engine : SecretsEngine) : Regex Char :=
  many (fun c ↦ c = '-' || c = '.' || isSpace engine c) 0 (some 1)

/-- `[a-zA-Z0-9_.+-]+@[a-zA-Z0-9-]+\.[a-zA-Z0-9-.]+`. -/
def email : Regex Char :=
  seqs [many isLocalPart 1 none, lit "@", many isLabel 1 none, lit ".", many isDomain 1 none]

/-- `\b\d{3}-\d{2}-\d{4}\b`, for a text. -/
def ssn (c : CharClasses) (text : List Char) : Regex Char :=
  seqs [.boundary c.isWord text, many c.isDecimal 3 (some 3), lit "-",
    many c.isDecimal 2 (some 2), lit "-", many c.isDecimal 4 (some 4), .boundary c.isWord text]

/-- `\b(?:\d[ -]*?){13,19}\b`, for a text. -/
def creditCard (c : CharClasses) (text : List Char) : Regex Char :=
  seqs [.boundary c.isWord text,
    .times (seq (cls c.isDecimal) (few (fun d ↦ d = ' ' || d = '-') 0 none)) 13 6,
    .boundary c.isWord text]

/-- `\b(?:\+1[-.\s]?)?\(?\d{3}\)?[-.\s]?\d{3}[-.\s]?\d{4}\b`, for a text. -/
def phoneUs (engine : SecretsEngine) (c : CharClasses) (text : List Char) : Regex Char :=
  seqs [.boundary c.isWord text, alt (seq (lit "+1") (separator engine)) .empty,
    many (fun d ↦ d = '(') 0 (some 1), many c.isDecimal 3 (some 3),
    many (fun d ↦ d = ')') 0 (some 1), separator engine, many c.isDecimal 3 (some 3),
    separator engine, many c.isDecimal 4 (some 4), .boundary c.isWord text]

/-- `\b[A-Z]{1,2}\d{6,9}\b`, for a text. -/
def passport (c : CharClasses) (text : List Char) : Regex Char :=
  seqs [.boundary c.isWord text, many Char.isUpper 1 (some 2), many c.isDecimal 6 (some 9),
    .boundary c.isWord text]

/-- A pattern with its name and what takes the place of its matches. What it matches in a text may
depend on the text, because of the boundaries of words. -/
structure PiiPattern where
  name : String
  regex : List Char → Regex Char
  replacement : String

/-- `_PII_PATTERNS` and `PII_DEFS`. -/
def piiPatterns (engine : SecretsEngine) (c : CharClasses) : List PiiPattern :=
  [⟨"email", fun _ ↦ email, "***EMAIL***"⟩, ⟨"ssn", ssn c, "***SSN***"⟩,
    ⟨"credit_card", creditCard c, "***CC***"⟩, ⟨"phone_us", phoneUs engine c, "***PHONE***"⟩,
    ⟨"passport", passport c, "***PASSPORT***"⟩]

/-- The patterns of the categories that are named, or all if none is. -/
def activePatterns (engine : SecretsEngine) (c : CharClasses) (categories : List String) :
    List PiiPattern :=
  if categories = [] then piiPatterns engine c
  else (piiPatterns engine c).filter fun p ↦ decide (p.name ∈ categories)

/-- One round of the loop of `_mask_string`. -/
def maskPattern (acc : String × List (String × ℕ)) (p : PiiPattern) : String × List (String × ℕ) :=
  let r := p.regex acc.1.toList
  let n := r.count acc.1.toList
  if n = 0 then acc
  else (String.ofList (r.sub p.replacement.toList acc.1.toList), acc.2 ++ [(p.name, n)])

/-- `_mask_string`: the text as it is masked, and how often by which pattern. -/
def maskString (engine : SecretsEngine) (patterns : List PiiPattern) (text : String) :
    String × List (String × ℕ) :=
  match engine with
  | .python => patterns.foldl maskPattern (text, [])
  | .rust =>
    if patterns.any fun p ↦ (p.regex text.toList).search text.toList then
      patterns.foldl maskPattern (text, [])
    else (text, [])

/-! ## Scanning -/

/-- What comes of asking the daemon. -/
inductive ClamdReply where
  | unreachable
  | reply (text : String)
  /-- Nothing, for as long as the hook may take. -/
  | late

/-- The data that were given to the daemon for a request. -/
abbrev Submissions := List (List UInt8)

/-- `data[:n]`. -/
def slice (data : List UInt8) (n : ℤ) : List UInt8 :=
  data.take (if 0 ≤ n then n else data.length + n).toNat

def encode (text : String) : List UInt8 := text.toUTF8.toList

def isFound (reply : String) : Bool :=
  "stream: ".toList.isPrefixOf reply.toList && (lit "FOUND").search reply.toList

/-- What was found. -/
def virusName (reply : String) : String :=
  String.ofList ((lit " FOUND").sub [] (reply.toList.drop "stream: ".length))

/-! ## The plugins -/

/-- The plugins, as they are constructed from their settings. -/
inductive Filter (O : Type) where
  | secretsDetection (config : PluginConfig O) (engine : SecretsEngine)
  | piiFilter (config : PluginConfig O) (engine : SecretsEngine) (classes : CharClasses)
      (categories : List String)
  | clamav (config : PluginConfig O) (maxScanBytes : ℤ) (block : Bool)
      (daemon : List UInt8 → ClamdReply)

variable {O : Type}

def Filter.config : Filter O → PluginConfig O
  | .secretsDetection config _ => config
  | .piiFilter config _ _ _ => config
  | .clamav config _ _ _ => config

/-- `ctx.metadata[name] = value`. -/
def note (ctx : HookContext O) (name : String) (value : Value O) : HookContext O :=
  { ctx with metadata := ctx.metadata.set name (.value value) }

/-- Counts, as an entry of the metadata. -/
def countsValue (counts : List (String × ℕ)) : Value O :=
  .dict (counts.map fun e ↦ (e.1, .int e.2))

/-- `tool_post_invoke` of the plugin that looks for secrets. -/
def secretsPostInvoke (engine : SecretsEngine) (ctx : HookContext O) : HookContext O :=
  match ctx.result with
  | .text value =>
    let redacted := Secrets.redactResult engine value
    let ctx := { ctx with result := .text redacted.1 }
    if redacted.2 then note ctx "secrets_redacted_result" (.bool true) else ctx
  | _ => ctx

def hasSecrets (engine : SecretsEngine) (arguments : Arguments O) : Bool :=
  arguments.any fun a ↦
    match a.2 with
    | .str value => decide (Secrets.scan engine value ≠ [])
    | _ => false

/-- `tool_pre_invoke` of the plugin that looks for secrets. -/
def secretsPreInvoke [PyObject O] (config : PluginConfig O) (engine : SecretsEngine)
    (ctx : HookContext O) : HookReply O :=
  match Secrets.scanArguments engine (Secrets.blocks config) ctx.arguments with
  | .error e => .raises e
  | .ok arguments =>
    let redacted := { ctx with arguments := arguments }
    if hasSecrets engine ctx.arguments then
      .context (note redacted "secrets_redacted" (.bool true))
    else .context redacted

/-- `tool_post_invoke` of the PII filter. -/
def piiPostInvoke (engine : SecretsEngine) (patterns : List PiiPattern) (ctx : HookContext O) :
    HookContext O :=
  match ctx.result with
  | .text value =>
    let masked := maskString engine patterns value
    if masked.2.isEmpty then ctx
    else note { ctx with result := .text masked.1 } "pii_post_masked" (countsValue masked.2)
  | _ => ctx

/-- An argument that is a text, masked. -/
def maskArgument (engine : SecretsEngine) (patterns : List PiiPattern) :
    String × Value O → (String × Value O) × List (String × ℕ)
  | (key, .str value) =>
    let masked := maskString engine patterns value
    if masked.2.isEmpty then ((key, .str value), []) else ((key, .str masked.1), masked.2)
  | a => (a, [])

/-- `tool_pre_invoke` of the PII filter, with the counts of `_mask_dict` added up. -/
def piiPreInvoke (engine : SecretsEngine) (patterns : List PiiPattern) (ctx : HookContext O) :
    HookContext O :=
  let masked := ctx.arguments.map (maskArgument engine patterns)
  let counts := (masked.flatMap Prod.snd).foldl
    (fun d e ↦ d.set e.1 (d.getD e.1 0 + e.2)) (Dict.empty : Dict String ℕ)
  let ctx := { ctx with arguments := masked.map Prod.fst }
  if counts.items.isEmpty then ctx else note ctx "pii_pre_masked" (countsValue counts.items)

def scan (maxScanBytes : ℤ) (block : Bool) (daemon : List UInt8 → ClamdReply)
    (ctx : HookContext O) (data : List UInt8) (phase : Hook) (w : Submissions) :
    HookReply O × Submissions :=
  let data := slice data maxScanBytes
  match daemon data with
  | .late => (.timesOut, w ++ [data])
  | .unreachable => (.context ctx, w ++ [data])
  | .reply reply =>
    if isFound reply then
      if block then
        (.raises ⟨.valueError, "ClamAV: malware detected — " ++ virusName reply⟩, w ++ [data])
      else
        (.context (note ctx ("clamav_" ++ phase.text) (.str (virusName reply))), w ++ [data])
    else (.context ctx, w ++ [data])

def extractContent (arguments : Arguments O) : Option (List UInt8) :=
  ["content", "data", "body", "payload"].findSome? fun key ↦
    match arguments.lookup key with
    | some (.str value) => if value = "" then none else some (encode value)
    | _ => none

def extractContentFromResult : McpResult → Option (List UInt8)
  | .text value => if value = "" then none else some (encode value)
  | _ => none

/-- The hook scans what it has found, if anything. -/
def scanContent (maxScanBytes : ℤ) (block : Bool) (daemon : List UInt8 → ClamdReply) (phase : Hook)
    (content : HookContext O → Option (List UInt8)) (ctx : HookContext O) (w : Submissions) :
    HookReply O × Submissions :=
  match content ctx with
  | none => (.context ctx, w)
  | some data => scan maxScanBytes block daemon ctx data phase w

def Filter.plugin [PyObject O] : Filter O → Hooks.Plugin O Submissions
  | .secretsDetection config engine =>
    ⟨config, fun
      | .toolPreInvoke => some fun ctx w ↦ (secretsPreInvoke config engine ctx, w)
      | .toolPostInvoke => some fun ctx w ↦ (.context (secretsPostInvoke engine ctx), w)
      | _ => none⟩
  | .piiFilter config engine classes categories =>
    ⟨config, fun
      | .toolPreInvoke => some fun ctx w ↦
          (.context (piiPreInvoke engine (activePatterns engine classes categories) ctx), w)
      | .toolPostInvoke => some fun ctx w ↦
          (.context (piiPostInvoke engine (activePatterns engine classes categories) ctx), w)
      | _ => none⟩
  | .clamav config maxScanBytes block daemon =>
    ⟨config, fun
      | .resourcePreFetch => some (scanContent maxScanBytes block daemon .resourcePreFetch
          fun ctx ↦ extractContent ctx.arguments)
      | .toolPostInvoke => some (scanContent maxScanBytes block daemon .toolPostInvoke
          fun ctx ↦ extractContentFromResult ctx.result)
      | _ => none⟩

/-! ## What the filters are for -/

/-- The scan is a reason to refuse what was scanned. -/
def ClamdReply.fails (block : Bool) : ClamdReply → Bool
  | .late => true
  | .unreachable => false
  | .reply text => isFound text && block

/-- The filters that are loaded, in the order of their priorities. -/
def ordered (filters : Dict String (Filter O)) : List (Filter O) :=
  (filters.items.map Prod.snd).mergeSort fun a b ↦
    decide (a.config.priority ≤ b.config.priority)

/-- What the filter makes of a text: another text, or nothing if the request is to be refused; and
what it sends to be scanned. -/
def Filter.onText : Filter O → String → Option String × Submissions
  | .secretsDetection _ engine, text => (some (Secrets.redactResult engine text).1, [])
  | .piiFilter _ engine classes categories, text =>
    (some (maskString engine (activePatterns engine classes categories) text).1, [])
  | .clamav config maxScanBytes block daemon, text =>
    if text = "" then (some text, [])
    else
      let data := slice (encode text) maxScanBytes
      (if (daemon data).fails block = true ∧ config.executionMode = .enforce then none
        else some text, [data])

/-- What a list of filters makes of a text. -/
def prescribe : List (Filter O) → String → Option String × Submissions
  | [], text => (some text, [])
  | f :: fs, text =>
    match f.onText text with
    | (none, sent) => (none, sent)
    | (some text, sent) =>
      let rest := prescribe fs text
      (rest.1, sent ++ rest.2)

/-- What the filters that change texts make of a text. -/
def masked : List (Filter O) → String → String
  | [], text => text
  | .secretsDetection _ engine :: fs, text => masked fs (Secrets.redactResult engine text).1
  | .piiFilter _ engine classes categories :: fs, text =>
    masked fs (maskString engine (activePatterns engine classes categories) text).1
  | .clamav _ _ _ _ :: fs, text => masked fs text

def scans (fs : List (Filter O)) : Bool :=
  fs.any fun f ↦
    match f with
    | .clamav _ _ _ _ => true
    | _ => false

section

variable [PyObject O]

def plugins (filters : Dict String (Filter O)) : Dict String (Hooks.Plugin O Submissions) :=
  filters.mapValues Filter.plugin

def concerned (filters : Dict String (Filter O)) (ctx : HookContext O) : List (Filter O) :=
  (ordered filters).filter fun f ↦ f.plugin.applies ctx

/-- What is expected of the filters: if a backend returns a result with blocks that are texts, then
each text handed on is what is prescribed for its block, a result with a block that is to be refused
is refused, and what is to be scanned has been. -/
def Filtered (filters : Dict String (Filter O)) (request : ToolRequest O) : Prop :=
  ∀ p w blocks isError,
    Hooks.runHook (plugins filters) .toolPreInvoke
      (toHookContext request.ctx request.metadata .null) [] = (.ok p, w) →
    (request.routedAs p).result = .ok (.callToolResult blocks isError) →
      (∀ blocks' isError', (handle (plugins filters) id request []).1.result
          = .ok (.callToolResult blocks' isError') →
        List.Forall₂ (fun b b' ↦ (prescribe (concerned filters
          (request.answered p (.callToolResult blocks isError))) b).1 = some b') blocks blocks') ∧
      (∀ b ∈ blocks, (prescribe (concerned filters
          (request.answered p (.callToolResult blocks isError))) b).1 = none →
        ∃ e, (handle (plugins filters) id request []).1.result = .error e) ∧
      (∀ b ∈ blocks, ∀ data ∈ (prescribe (concerned filters
          (request.answered p (.callToolResult blocks isError))) b).2,
        data ∈ (handle (plugins filters) id request []).2)

end

/-! ## Texts that are left alone -/

theorem redactResult_empty (engine : SecretsEngine) : (Secrets.redactResult engine "").1 = "" := by
  have hreplace : ∀ r : Regex Char, Secrets.replace r "" = "" := fun _ ↦ rfl
  rcases engine with _ | _
  · rw [Secrets.redactResult]
    generalize Secrets.patterns .python = patterns
    generalize false = found
    induction patterns generalizing found with
    | nil => rfl
    | cons p patterns ih =>
      rw [List.foldl_cons]
      split
      · rw [hreplace]
        exact ih true
      · exact ih found
  · rw [Secrets.redactResult]
    split
    · rfl
    · dsimp only
      generalize Secrets.patterns .rust = patterns
      induction patterns with
      | nil => rfl
      | cons p patterns ih => rwa [List.foldl_cons, hreplace]

theorem maskPattern_cases (acc : String × List (String × ℕ)) (p : PiiPattern) :
    maskPattern acc p = acc ∨ (maskPattern acc p).2 ≠ [] := by
  rw [maskPattern]
  split
  · exact .inl rfl
  · exact .inr (by simp)

theorem foldl_maskPattern_of_nil {patterns : List PiiPattern} {acc : String × List (String × ℕ)}
    (h : (patterns.foldl maskPattern acc).2 = []) : patterns.foldl maskPattern acc = acc := by
  induction patterns generalizing acc with
  | nil => rfl
  | cons p patterns ih =>
    rw [List.foldl_cons] at h ⊢
    have hrest := ih h
    rcases maskPattern_cases acc p with heq | hne
    · exact hrest.trans heq
    · rw [hrest] at h
      exact absurd h hne

theorem maskString_of_nil {engine : SecretsEngine} {patterns : List PiiPattern} {text : String}
    (h : (maskString engine patterns text).2 = []) :
    (maskString engine patterns text).1 = text := by
  rcases engine with _ | _
  · exact congrArg Prod.fst (foldl_maskPattern_of_nil h)
  · rw [maskString] at h ⊢
    by_cases hany : (patterns.any fun p ↦ (p.regex text.toList).search text.toList) = true
    · rw [if_pos hany] at h ⊢
      exact congrArg Prod.fst (foldl_maskPattern_of_nil h)
    · rw [if_neg hany]

theorem maskString_empty (engine : SecretsEngine) (patterns : List PiiPattern) :
    (maskString engine patterns "").1 = "" := by
  refine maskString_of_nil ?_
  have hmask : ∀ p, maskPattern ("", []) p = ("", []) := fun _ ↦ rfl
  have hfold : patterns.foldl maskPattern ("", []) = ("", []) := by
    induction patterns with
    | nil => rfl
    | cons p patterns ih => rwa [List.foldl_cons, hmask]
  rcases engine with _ | _
  · rw [maskString, hfold]
  · rw [maskString, hfold, ite_self]

theorem masked_empty (fs : List (Filter O)) : masked fs "" = "" := by
  induction fs with
  | nil => rfl
  | cons f fs ih =>
    rcases f with ⟨config, engine⟩ | ⟨config, engine, classes, categories⟩ | _
    · rwa [masked, redactResult_empty]
    · rwa [masked, maskString_empty]
    · exact ih

theorem prescribe_empty (fs : List (Filter O)) : prescribe fs "" = (some "", []) := by
  have honText : ∀ f : Filter O, f.onText "" = (some "", []) := by
    intro f
    rcases f with ⟨config, engine⟩ | ⟨config, engine, classes, categories⟩ | _
    · rw [Filter.onText, redactResult_empty]
    · rw [Filter.onText, maskString_empty]
    · rfl
  induction fs with
  | nil => rfl
  | cons f fs ih =>
    rw [prescribe, honText]
    dsimp only
    rw [ih]
    rfl

theorem onText_clamav_cases (config : PluginConfig O) (maxScanBytes : ℤ) (block : Bool)
    (daemon : List UInt8 → ClamdReply) {text : String} (h : text ≠ "") : ∃ data,
      (Filter.clamav config maxScanBytes block daemon).onText text = (none, [data]) ∨
        (Filter.clamav config maxScanBytes block daemon).onText text = (some text, [data]) := by
  refine ⟨slice (encode text) maxScanBytes, ?_⟩
  rw [Filter.onText, if_neg h]
  dsimp only
  split
  · exact .inl rfl
  · exact .inr rfl

theorem eq_masked_of_prescribe {fs : List (Filter O)} {text text' : String}
    (h : (prescribe fs text).1 = some text') : text' = masked fs text := by
  induction fs generalizing text with
  | nil => exact (Option.some.inj h).symm
  | cons f fs ih =>
    rcases f with ⟨config, engine⟩ | ⟨config, engine, classes, categories⟩ |
      ⟨config, maxScanBytes, block, daemon⟩
    · exact ih h
    · exact ih h
    · by_cases hempty : text = ""
      · rw [hempty, prescribe_empty] at h
        rw [hempty, masked_empty]
        exact (Option.some.inj h).symm
      · rw [prescribe] at h
        obtain ⟨data, hcase | hcase⟩ := onText_clamav_cases config maxScanBytes block daemon hempty
        · rw [hcase] at h
          exact absurd h (by simp)
        · rw [hcase] at h
          exact ih h

theorem prescribe_of_not_scans {fs : List (Filter O)} (h : scans fs = false) (text : String) :
    prescribe fs text = (some (masked fs text), []) := by
  induction fs generalizing text with
  | nil => rfl
  | cons f fs ih =>
    rcases f with ⟨config, engine⟩ | ⟨config, engine, classes, categories⟩ | _
    · rw [prescribe, Filter.onText, masked]
      dsimp only
      rw [ih h]
      rfl
    · rw [prescribe, Filter.onText, masked]
      dsimp only
      rw [ih h]
      rfl
    · exact absurd h (by simp [scans])

theorem masked_of_scans {fs : List (Filter O)} (h : scans fs = true) {text : String}
    (hsent : (prescribe fs text).2 = []) : masked fs text = "" := by
  induction fs generalizing text with
  | nil => exact absurd h Bool.false_ne_true
  | cons f fs ih =>
    rcases f with ⟨config, engine⟩ | ⟨config, engine, classes, categories⟩ |
      ⟨config, maxScanBytes, block, daemon⟩
    · exact ih h hsent
    · exact ih h hsent
    · by_cases hempty : text = ""
      · rw [hempty, masked_empty]
      · rw [prescribe] at hsent
        obtain ⟨data, hcase | hcase⟩ := onText_clamav_cases config maxScanBytes block daemon hempty
        · rw [hcase] at hsent
          exact absurd hsent (by simp)
        · rw [hcase] at hsent
          exact absurd hsent (by simp)

theorem prescribe_eq_iff {fs : List (Filter O)} {text : String} :
    prescribe fs text = (some text, []) ↔
      masked fs text = text ∧ (scans fs = true → text = "") := by
  constructor
  · intro h
    have hmasked : text = masked fs text := eq_masked_of_prescribe (congrArg Prod.fst h)
    refine ⟨hmasked.symm, fun hscans ↦ hmasked.trans ?_⟩
    exact masked_of_scans hscans (congrArg Prod.snd h)
  · rintro ⟨hmasked, hempty⟩
    rcases hscans : scans fs with _ | _
    · rw [prescribe_of_not_scans hscans, hmasked]
    · rw [hempty hscans, prescribe_empty]

/-! ## What the hooks make of texts, and of results with blocks -/

section

variable [PyObject O] {filters : Dict String (Filter O)}

theorem config_plugin (f : Filter O) : f.plugin.config = f.config := by
  rcases f with _ | _ | _
  · rfl
  · rfl
  · rfl

theorem getByHook_plugins (filters : Dict String (Filter O)) :
    getByHook (plugins filters) .toolPostInvoke = (ordered filters).map Filter.plugin := by
  have hall : ∀ plugin ∈ (filters.items.map Prod.snd).map Filter.plugin,
      (plugin.hook .toolPostInvoke).isSome = true := by
    intro plugin hplugin
    obtain ⟨f, -, rfl⟩ := List.mem_map.mp hplugin
    rcases f with _ | _ | _
    · rfl
    · rfl
    · rfl
  rw [getByHook, plugins, Dict.map_snd_items_mapValues, List.filter_eq_self.mpr hall, ordered]
  refine (List.map_mergeSort fun a _ b _ ↦ ?_).symm
  rw [config_plugin, config_plugin]

omit [PyObject O] in
theorem result_secretsPostInvoke (engine : SecretsEngine) {c : HookContext O} {text : String}
    (hc : c.result = .text text) :
    (secretsPostInvoke engine c).result = .text (Secrets.redactResult engine text).1 := by
  rw [secretsPostInvoke, hc]
  dsimp only
  split
  · rfl
  · rfl

omit [PyObject O] in
theorem result_piiPostInvoke (engine : SecretsEngine) (patterns : List PiiPattern)
    {c : HookContext O} {text : String} (hc : c.result = .text text) :
    (piiPostInvoke engine patterns c).result = .text (maskString engine patterns text).1 := by
  rw [piiPostInvoke, hc]
  dsimp only
  split
  · rename_i hempty
    rw [maskString_of_nil (List.isEmpty_iff.mp hempty)]
    exact hc
  · rfl

omit [PyObject O] in
theorem scan_cases (maxScanBytes : ℤ) (block : Bool) (daemon : List UInt8 → ClamdReply)
    (c : HookContext O) (data : List UInt8) (phase : Hook) (w : Submissions) :
    (scan maxScanBytes block daemon c data phase w).2 = w ++ [slice data maxScanBytes] ∧
      (((daemon (slice data maxScanBytes)).fails block = false ∧
          ∃ c', (scan maxScanBytes block daemon c data phase w).1 = .context c' ∧
            c'.result = c.result) ∨
        ((daemon (slice data maxScanBytes)).fails block = true ∧
          ((scan maxScanBytes block daemon c data phase w).1 = .timesOut ∨
            ∃ e, (scan maxScanBytes block daemon c data phase w).1 = .raises e))) := by
  rw [scan]
  rcases daemon (slice data maxScanBytes) with _ | reply | _
  · exact ⟨rfl, .inl ⟨rfl, c, rfl, rfl⟩⟩
  · dsimp only [ClamdReply.fails]
    rcases hfound : isFound reply with _ | _
    · exact ⟨rfl, .inl ⟨rfl, c, rfl, rfl⟩⟩
    · rcases block with _ | _
      · exact ⟨rfl, .inl ⟨rfl, _, rfl, rfl⟩⟩
      · exact ⟨rfl, .inr ⟨rfl, .inr ⟨_, rfl⟩⟩⟩
  · exact ⟨rfl, .inr ⟨rfl, .inl rfl⟩⟩

/-- The run has come to what is prescribed. -/
def Follows (ran : Except HookExc (Loop O) × Submissions) (w : Submissions) :
    Option String × Submissions → Prop
  | (none, sent) => ∃ e, ran = (.error e, w ++ sent)
  | (some text, sent) => ∃ c metadata, ran = (.ok ⟨.ok c, metadata⟩, w ++ sent) ∧
      c.result = .text text

theorem follows_runPlugin {ctx c : HookContext O} {f : Filter O} {text : String}
    (happlies : f.plugin.applies ctx = true) (hc : c.result = .text text)
    (metadata : Dict String (MetaValue O)) (w : Submissions) :
    Follows (Hooks.runPlugin .toolPostInvoke ctx ⟨.ok c, metadata⟩ w f.plugin) w
      (f.onText text) := by
  rcases f with ⟨config, engine⟩ | ⟨config, engine, classes, categories⟩ |
    ⟨config, maxScanBytes, block, daemon⟩
  · rw [runPlugin_of_replies rfl ⟨happlies, _, rfl, rfl⟩]
    refine ⟨_, _, Prod.ext rfl (List.append_nil w).symm, result_secretsPostInvoke engine hc⟩
  · rw [runPlugin_of_replies rfl ⟨happlies, _, rfl, rfl⟩]
    refine ⟨_, _, Prod.ext rfl (List.append_nil w).symm, result_piiPostInvoke engine _ hc⟩
  · rw [Filter.onText]
    have hcontent : ∀ w, scanContent maxScanBytes block daemon .toolPostInvoke
        (fun ctx : HookContext O ↦ extractContentFromResult ctx.result) c w
          = if text = "" then (.context c, w)
            else scan maxScanBytes block daemon c (encode text) .toolPostInvoke w := by
      intro w
      rw [scanContent, hc, extractContentFromResult]
      by_cases hempty : text = ""
      · rw [if_pos hempty, if_pos hempty]
      · rw [if_neg hempty, if_neg hempty]
    by_cases hempty : text = ""
    · rw [runPlugin_of_replies rfl ⟨happlies, _, rfl, (hcontent w).trans (if_pos hempty)⟩,
        if_pos hempty]
      exact ⟨_, _, Prod.ext rfl (List.append_nil w).symm, hc⟩
    · rw [runPlugin_of_replies rfl ⟨happlies, _, rfl,
        ((hcontent w).trans (if_neg hempty)).trans Prod.mk.eta.symm⟩, if_neg hempty]
      obtain ⟨hsent, ⟨hfails, c', hreply, hc'⟩ | ⟨hfails, hreply⟩⟩ :=
        scan_cases maxScanBytes block daemon c (encode text) .toolPostInvoke w
      · rw [hsent, hreply]
        dsimp only
        rw [hfails, if_neg (by simp)]
        exact ⟨_, _, rfl, hc'.trans hc⟩
      · rw [hsent]
        dsimp only
        have hsettle : ∃ cause, (Filter.clamav config maxScanBytes block daemon).plugin.settle
            .toolPostInvoke ⟨.ok c, metadata⟩
            (scan maxScanBytes block daemon c (encode text) .toolPostInvoke w).1
              = if config.executionMode = .enforce then .error cause
                else .ok ⟨.ok c, metadata⟩ := by
          rcases hreply with hreply | ⟨e, hreply⟩
          · rw [hreply]
            exact ⟨_, rfl⟩
          · rw [hreply]
            exact ⟨_, rfl⟩
        obtain ⟨cause, hsettle⟩ := hsettle
        rw [hsettle, hfails]
        by_cases hmode : config.executionMode = .enforce
        · rw [if_pos hmode, if_pos ⟨rfl, hmode⟩]
          exact ⟨_, rfl⟩
        · rw [if_neg hmode, if_neg (fun h ↦ hmode h.2)]
          exact ⟨_, _, rfl, hc⟩

theorem follows_runPlugins {ctx : HookContext O} (fs : List (Filter O)) {c : HookContext O}
    {text : String} (hc : c.result = .text text) (metadata : Dict String (MetaValue O))
    (w : Submissions) :
    Follows (Hooks.runPlugins .toolPostInvoke ctx (fs.map Filter.plugin) ⟨.ok c, metadata⟩ w) w
      (prescribe (fs.filter fun f ↦ f.plugin.applies ctx) text) := by
  induction fs generalizing c text metadata w with
  | nil => exact ⟨c, metadata, Prod.ext rfl (List.append_nil w).symm, hc⟩
  | cons f fs ih =>
    rw [List.map_cons, runPlugins_cons]
    rcases happlies : f.plugin.applies ctx with _ | _
    · rw [runPlugin_of_not_applies happlies, List.filter_cons_of_neg (by simp [happlies])]
      exact ih hc metadata w
    · rw [List.filter_cons_of_pos (by simp [happlies]), prescribe]
      have hstep := follows_runPlugin happlies hc metadata w
      -- whatever the first filter makes of the text is what the next ones are given
      generalize f.onText text = made at hstep ⊢
      rcases made with ⟨_ | text', sent⟩
      · obtain ⟨e, he⟩ := hstep
        rw [he]
        exact ⟨e, rfl⟩
      · obtain ⟨c', metadata', hok, hc'⟩ := hstep
        rw [hok]
        dsimp only
        have hrest := ih hc' metadata' (w ++ sent)
        generalize prescribe (fs.filter fun f ↦ f.plugin.applies ctx) text' = rest at hrest ⊢
        rcases rest with ⟨_ | text'', sent'⟩
        · obtain ⟨e, he⟩ := hrest
          exact ⟨e, he.trans (by rw [List.append_assoc])⟩
        · obtain ⟨c'', metadata'', hok', hc''⟩ := hrest
          exact ⟨c'', metadata'', hok'.trans (by rw [List.append_assoc]), hc''⟩

/-- **A text is filtered.** What the hooks make of a text is what is prescribed for it. -/
theorem runHook_text (filters : Dict String (Filter O)) {c : HookContext O} {text : String}
    (hc : c.result = .text text) :
    (Hooks.runHook (plugins filters) .toolPostInvoke c []).2
        = (prescribe (concerned filters c) text).2 ∧
      ((Hooks.runHook (plugins filters) .toolPostInvoke c []).1.toOption.map HookContext.result
        = (prescribe (concerned filters c) text).1.map McpResult.text) := by
  have hfollows : Follows _ [] (prescribe (concerned filters c) text) :=
    follows_runPlugins (ordered filters) hc Dict.empty []
  rw [Hooks.runHook, getByHook_plugins]
  generalize prescribe (concerned filters c) text = prescribed at hfollows ⊢
  rcases prescribed with ⟨_ | text', sent⟩
  · obtain ⟨e, he⟩ := hfollows
    rw [he]
    exact ⟨rfl, rfl⟩
  · obtain ⟨c', metadata', hok, hc'⟩ := hfollows
    rw [hok]
    refine ⟨rfl, congrArg some ?_⟩
    exact hc'

/-- **A result with blocks is not.** -/
theorem runHook_callToolResult (filters : Dict String (Filter O)) {c : HookContext O}
    {blocks : List String} {isError : Bool} (hc : c.result = .callToolResult blocks isError)
    (w : Submissions) :
    Hooks.runHook (plugins filters) .toolPostInvoke c w = (.ok c, w) := by
  refine runHook_of_unmoved (fun plugin hplugin fn hfn w ↦ ?_) w
  rw [getByHook_plugins] at hplugin
  obtain ⟨f, -, rfl⟩ := List.mem_map.mp hplugin
  rcases f with ⟨config, engine⟩ | ⟨config, engine, classes, categories⟩ |
    ⟨config, maxScanBytes, block, daemon⟩
  · obtain rfl := Option.some.inj hfn
    dsimp only
    rw [secretsPostInvoke, hc]
  · obtain rfl := Option.some.inj hfn
    dsimp only
    rw [piiPostInvoke, hc]
  · obtain rfl := Option.some.inj hfn
    rw [scanContent, hc]
    rfl

theorem runHook_toolPreInvoke_snd (filters : Dict String (Filter O)) (ctx : HookContext O)
    (w : Submissions) : (Hooks.runHook (plugins filters) .toolPreInvoke ctx w).2 = w := by
  refine runPlugins_snd (fun plugin hplugin fn hfn c w ↦ ?_) _ w
  rw [getByHook, List.mem_mergeSort] at hplugin
  obtain ⟨⟨name, plugin⟩, hitem, rfl⟩ := List.mem_map.mp (List.mem_of_mem_filter hplugin)
  obtain ⟨⟨name, f⟩, -, heq⟩ := List.mem_map.mp hitem
  obtain ⟨rfl, rfl⟩ := Prod.mk.inj heq
  rcases f with ⟨config, engine⟩ | ⟨config, engine, classes, categories⟩ | _
  · rw [← Option.some.inj hfn]
  · rw [← Option.some.inj hfn]
  · exact absurd hfn (by simp [Filter.plugin])

theorem handle_callToolResult {request : ToolRequest O} {p : HookContext O} {w : Submissions}
    {blocks : List String} {isError : Bool}
    (hpre : Hooks.runHook (plugins filters) .toolPreInvoke
      (toHookContext request.ctx request.metadata .null) [] = (.ok p, w))
    (hrouted : (request.routedAs p).result = .ok (.callToolResult blocks isError)) :
    (handle (plugins filters) id request []).2 = [] ∧
      (handle (plugins filters) id request []).1.result
        = .ok (.callToolResult blocks isError) := by
  have hw := runHook_toolPreInvoke_snd filters
    (toHookContext request.ctx request.metadata .null) []
  rw [hpre] at hw
  obtain ⟨hworld, -, hresult⟩ := handle_of_ok id hpre hrouted
    (runHook_callToolResult filters rfl (id w))
  exact ⟨hworld.trans hw, hresult⟩

end

/-- **When results are filtered**: exactly when every text in a result that a backend returns is one
that the filters asked about it leave as it is, and is empty if one of them scans. -/
theorem filtered_iff [PyObject O] (filters : Dict String (Filter O)) (request : ToolRequest O) :
    Filtered filters request ↔ ∀ p w blocks isError,
      Hooks.runHook (plugins filters) .toolPreInvoke
        (toHookContext request.ctx request.metadata .null) [] = (.ok p, w) →
      (request.routedAs p).result = .ok (.callToolResult blocks isError) → ∀ b ∈ blocks,
        masked (concerned filters (request.answered p (.callToolResult blocks isError))) b = b ∧
          (scans (concerned filters (request.answered p (.callToolResult blocks isError))) = true →
            b = "") := by
  refine forall_congr' fun p ↦ forall_congr' fun w ↦ forall_congr' fun blocks ↦
    forall_congr' fun isError ↦ forall_congr' fun hpre ↦ forall_congr' fun hrouted ↦ ?_
  obtain ⟨hworld, hresult⟩ := handle_callToolResult hpre hrouted
  rw [hworld, hresult]
  generalize concerned filters (request.answered p (.callToolResult blocks isError)) = fs
  constructor
  · rintro ⟨hforall, -, hsent⟩ b hb
    refine prescribe_eq_iff.mp (Prod.ext ?_ (List.eq_nil_iff_forall_not_mem.mpr ?_))
    · exact List.forall₂_same.mp (hforall blocks isError rfl) b hb
    · exact fun data hdata ↦ List.not_mem_nil (hsent b hb data hdata)
  · intro h
    have hprescribe : ∀ b ∈ blocks, prescribe fs b = (some b, []) :=
      fun b hb ↦ prescribe_eq_iff.mpr (h b hb)
    refine ⟨fun blocks' isError' heq ↦ ?_, fun b hb hnone ↦ ?_, fun b hb data hdata ↦ ?_⟩
    · obtain ⟨rfl, -⟩ := McpResult.callToolResult.inj (Except.ok.inj heq)
      exact List.forall₂_same.mpr fun b hb ↦ congrArg Prod.fst (hprescribe b hb)
    · rw [hprescribe b hb] at hnone
      exact absurd hnone (by simp)
    · rw [hprescribe b hb] at hdata
      exact absurd hdata List.not_mem_nil

/-- A backend that answers with one text. -/
def tellingSession (text : String) : Session Empty where
  callTool := fun _ _ ↦ .ok (.callToolResult [text] false)
  readResource := fun _ ↦ .ok (.readResourceResult [])
  getPrompt := fun _ _ ↦ .ok (.getPromptResult [])

/-- A call that is answered with a secret. -/
def leakingRequest : ToolRequest Empty :=
  ⟨"read", none, "r", Dict.empty, mem_requestKeys_of_mem_empty,
    some (oneRoute "read" "files" "read"),
    some (Dict.empty.set "files" (tellingSession Secrets.leakedToken))⟩

/-- The plugin that looks for secrets, and no other. -/
def secretsOnly : Dict String (Filter Empty) :=
  Dict.ofList [("secrets_detection",
    .secretsDetection (Secrets.secretsEntry .enforce) .python)]

/-- A token in the answer of a backend gets to the client, although a plugin in `enforce` mode looks
for tokens. -/
theorem not_filtered_leakingRequest : ¬ Filtered secretsOnly leakingRequest := by
  intro h
  have hpre : Hooks.runHook (plugins secretsOnly) .toolPreInvoke
      (toHookContext leakingRequest.ctx leakingRequest.metadata .null) []
        = (.ok (toHookContext leakingRequest.ctx leakingRequest.metadata .null), []) :=
    runHook_single_of_context ⟨rfl, _, rfl, rfl⟩
  obtain ⟨hforall, -, -⟩ := h _ _ [Secrets.leakedToken] false hpre rfl
  have hprescribed := List.forall₂_same.mp
    (hforall _ _ (handle_callToolResult hpre rfl).2) _ (List.mem_singleton_self _)
  have hordered : ordered secretsOnly
      = [.secretsDetection (Secrets.secretsEntry .enforce) .python] :=
    List.mergeSort_singleton _
  rw [concerned, hordered] at hprescribed
  have hredacted : (Secrets.redactResult .python Secrets.leakedToken).1 ≠ Secrets.leakedToken := by
    decide
  exact hredacted (Option.some.inj hprescribed)

/-- A token as a whole result. -/
def leakingContext : HookContext Empty :=
  toHookContext leakingRequest.ctx leakingRequest.metadata (.text Secrets.leakedToken)

theorem runHook_text_leakingContext :
    (Hooks.runHook (plugins secretsOnly) .toolPostInvoke leakingContext []).2
        = (prescribe (concerned secretsOnly leakingContext) Secrets.leakedToken).2 ∧
      ((Hooks.runHook (plugins secretsOnly) .toolPostInvoke leakingContext []).1.toOption.map
          HookContext.result
        = (prescribe (concerned secretsOnly leakingContext) Secrets.leakedToken).1.map
          McpResult.text) :=
  runHook_text secretsOnly rfl

end Filters

end ArgusMcp
