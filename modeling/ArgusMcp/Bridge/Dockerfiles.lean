import ArgusMcp.Library.Dockerfile
import ArgusMcp.Workflows.Interpolation

/-!
# Generated Dockerfiles

A backend that runs in a container gets a Dockerfile from one of four templates, for packages of
`uvx`, `npx` and Go, and for a repository that is cloned and built. The modules modelled are those of
`bridge/container/templates`: the checks of `validation.py`, the data of `models.py`, the generators
and the templates. The part of `ContainerConfig` that goes into them is here with its own checks, as
the fields of a structure, and so is how `image_builder.py` picks a base image.

A template is written as the blocks it is rendered to, in its order: comments, blank lines and
instructions, with the values where the template has them. What a validator returns is spliced in as
it is, and so is what has none.
-/

namespace ArgusMcp

namespace Container

open Dockerfile

/-- A Python string. -/
abbrev Text := List Char

/-! ## Validation -/

/-- Why a value was refused, and the value. -/
inductive ValidationError where
  | emptyPackage
  | unsafePackage (name : Text)
  | longPackage (name : Text)
  | unsafeDep (dep : Text)
  | invalidDep (dep : Text)
  | longDep (dep : Text)
  | invalidKey (key : Text)
  | reservedKey (key : Text)
  | unsafeValue (value : Text)
  deriving DecidableEq

def strip (s : Text) : Text := (s.dropWhile Workflows.isSpace).rdropWhile Workflows.isSpace

def shellUnsafe : List Char := ";&|\x60$()\x7b\x7d[]<>!#~\n\r\\".toList

/-- A match of `^[first][rest]*$`. The dollar also matches before a line break at the end. -/
def matchesName (first rest : Char → Bool) (s : Text) : Bool :=
  let body := if s.getLast? = some '\n' then s.dropLast else s
  match body with
  | [] => false
  | c :: cs => first c && cs.all rest

def isUpper (c : Char) : Bool := 'A' ≤ c && c ≤ 'Z'

def isDigit (c : Char) : Bool := '0' ≤ c && c ≤ '9'

def isLower (c : Char) : Bool := 'a' ≤ c && c ≤ 'z'

/-- `_ENV_KEY_PATTERN`. -/
def isEnvKey (key : Text) : Bool :=
  matchesName isUpper (fun c ↦ isUpper c || isDigit c || c = '_') key

/-- `_SYSDEP_PATTERN`. -/
def isSysdep (dep : Text) : Bool :=
  matchesName (fun c ↦ isLower c || isUpper c || isDigit c)
    (fun c ↦ isLower c || isUpper c || isDigit c || c = '.' || c = '_' || c = '+' || c = '-') dep

def reservedEnvKeys : List Text :=
  ["PATH".toList, "HOME".toList, "USER".toList, "SHELL".toList, "HOSTNAME".toList,
    "UV_TOOL_DIR".toList, "UV_TOOL_BIN_DIR".toList, "NODE_PATH".toList]

def validatePackageName (name : Text) : Except ValidationError Text :=
  let name := strip name
  if name = [] then .error .emptyPackage
  else if ∃ c ∈ name, c ∈ shellUnsafe then .error (.unsafePackage name)
  else if 256 < name.length then .error (.longPackage name)
  else .ok name

def validateSystemDeps : List Text → Except ValidationError (List Text)
  | [] => .ok []
  | dep :: deps =>
    let dep := strip dep
    if dep = [] then validateSystemDeps deps
    else if ∃ c ∈ dep, c ∈ shellUnsafe then .error (.unsafeDep dep)
    else if isSysdep dep = false then .error (.invalidDep dep)
    else if 128 < dep.length then .error (.longDep dep)
    else (validateSystemDeps deps).map fun validated ↦ dep :: validated

def validateBuildEnvKey (key : Text) : Except ValidationError Text :=
  if isEnvKey key = false then .error (.invalidKey key)
  else if key ∈ reservedEnvKeys then .error (.reservedKey key)
  else .ok key

def validateBuildEnvValue (value : Text) : Except ValidationError Text :=
  if ∃ c ∈ value, c ∈ ";&|\x60$()\x7b\x7d".toList then .error (.unsafeValue value)
  else .ok value

/-- The part of `_validate_build_inputs` that goes through the environment. -/
def validateBuildEnv : List (Text × Text) → Except ValidationError (List (Text × Text))
  | [] => .ok []
  | (key, value) :: env => do
    let _ ← validateBuildEnvKey key
    let _ ← validateBuildEnvValue value
    let validated ← validateBuildEnv env
    return (key, value) :: validated

/-! ## Names -/

/-- In lower case; nothing but letters of ASCII is looked for. -/
def lower (s : Text) : Text := s.map Char.toLower

def isVcsSpecifier (name : Text) : Bool :=
  ["github:".toList, "bitbucket:".toList, "gitlab:".toList, "git+https://".toList,
    "git+ssh://".toList, "git://".toList].any fun scheme ↦ scheme.isPrefixOf (lower name)

/-- The last part of `s.rsplit(sep, 1)`. -/
def afterLast (sep : Char) (s : Text) : Text := (s.splitOn sep).getLast?.getD []

/-- The first part of `s.rsplit(sep, 1)`, if there are two. -/
def beforeLast (sep : Char) (s : Text) : Text := s.take (s.length - (afterLast sep s).length - 1)

/-- What follows the first occurrence of a separator. -/
def afterFirst (sep : Text) : Text → Option Text
  | [] => none
  | c :: s => if sep.isPrefixOf (c :: s) then some ((c :: s).drop sep.length) else afterFirst sep s

/-- `s.removesuffix(".git")`. -/
def removeGit (s : Text) : Text :=
  if ".git".toList.isSuffixOf s then s.take (s.length - 4) else s

def vcsRepoName (specifier : Text) : Text :=
  let name := specifier.takeWhile fun c ↦ c ≠ '#'
  match ["github:".toList, "bitbucket:".toList, "gitlab:".toList].find? fun shorthand ↦
      shorthand.isPrefixOf (lower name) with
  | some shorthand => removeGit (afterLast '/' (name.drop shorthand.length))
  | none =>
    match afterFirst "://".toList name with
    | some path =>
      let path :=
        if '@' ∈ path.takeWhile fun c ↦ c ≠ '/' then (afterFirst ['@'] path).getD [] else path
      removeGit (afterLast '/' (path.rdropWhile fun c ↦ c = '/'))
    | none => name

def stripVersion (name : Text) : Text :=
  if isVcsSpecifier name then name
  else
    match name.splitOn '@' with
    | [] => name
    | [_] => name
    -- a scope, with or without a version behind it
    | [[], _] => name
    | [] :: name :: _ => '@' :: name
    | unscoped :: _ => unscoped

def npmBinName (cleanName : Text) : Text :=
  if isVcsSpecifier cleanName then vcsRepoName cleanName
  else if cleanName.head? = some '@' then (afterFirst ['/'] cleanName).getD cleanName
  else cleanName

def computeUvxInstallCmd (package : Text) : Text :=
  if '@' ∈ package ∧ package.head? ≠ some '@' then
    let ver := afterLast '@' package
    let pkgName := beforeLast '@' package
    if ver ≠ "latest".toList then
      "uv tool install '".toList ++ pkgName ++ "==".toList ++ ver ++ "'".toList
    else
      "uv tool install ".toList ++ pkgName
  else
    "uv tool install ".toList ++ package

/-- The host of an `https` URL, or nothing. Line breaks and tabs are taken out of the URL first;
what is in brackets is not looked at. -/
def urlHostname (url : Text) : Text :=
  let url := url.filter fun c ↦ c ≠ '\n' ∧ c ≠ '\r' ∧ c ≠ '\t'
  let netloc := (url.drop 8).takeWhile fun c ↦ c ≠ '/' ∧ c ≠ '?' ∧ c ≠ '#'
  if decide ('[' ∈ netloc) ≠ decide (']' ∈ netloc) then []
  else
    let hostinfo := afterLast '@' netloc
    let hostname := match afterFirst ['['] hostinfo with
      | some bracketed => bracketed.takeWhile fun c ↦ c ≠ ']'
      | none => hostinfo.takeWhile fun c ↦ c ≠ ':'
    lower (hostname.takeWhile fun c ↦ c ≠ '%') ++ hostname.dropWhile fun c ↦ c ≠ '%'

/-- The host that is logged in to for a clone. -/
def sourceUrlHost (url : Text) : Text :=
  if "https://".toList.isPrefixOf url then urlHostname url else []

/-! ## Data -/

inductive Transport where
  | uvx
  | npx
  | go
  deriving DecidableEq

/-- The base image and the packages of an image. -/
structure RuntimeConfig where
  builderImage : Text
  additionalPackages : List Text

def runtimeDefaults : Transport → RuntimeConfig
  | .uvx => ⟨"python:3.13-slim".toList, ["ca-certificates".toList, "git".toList]⟩
  | .npx => ⟨"node:22-alpine".toList, ["ca-certificates".toList, "git".toList]⟩
  | .go => ⟨"golang:1.24-alpine".toList, ["ca-certificates".toList, "git".toList]⟩

/-- The defaults, unless something that is not empty was given in their place. -/
def RuntimeConfig.forTransport (transport : Transport) (builderImage : Option Text)
    (additionalPackages : List Text) : RuntimeConfig :=
  let config := runtimeDefaults transport
  { builderImage := (builderImage.filter (· ≠ [])).getD config.builderImage
    additionalPackages :=
      if additionalPackages = [] then config.additionalPackages else additionalPackages }

structure TemplateData where
  builderImage : Text
  systemDeps : List Text
  buildSystemDeps : List Text
  buildEnv : List (Text × Text)
  additionalPackages : List Text
  package : Text := []
  packageClean : Text := []
  binary : Text := []
  installCmd : Text := []
  binName : Text := []
  goPackage : Text := []
  runtimeArgs : List Text := []
  sourceUrl : Text := []
  sourceRef : Text := []
  buildSteps : List Text := []
  entrypoint : List Text := []
  sourceUrlHost : Text := []

def isAlpine (image : Text) : Bool := decide ("alpine".toList <:+: lower image)

def TemplateData.isAlpine (d : TemplateData) : Bool := Container.isAlpine d.builderImage

def containerUid : Text := "65532".toList

def containerUser : Text := "nonroot".toList

def containerHome : Text := "/home/nonroot".toList

/-! ## Templates -/

def comment (line : String) : Block := .note line.toList

def blank : Block := .note []

def from' (body : Text) : Block := .instruction "FROM".toList body []

def run (body : Text) (more : List Text) : Block := .instruction "RUN".toList body more

def arg (body : Text) : Block := .instruction "ARG".toList body []

def env (body : Text) (more : List Text) : Block := .instruction "ENV".toList body more

def workdir (body : Text) : Block := .instruction "WORKDIR".toList body []

def copy (body : Text) : Block := .instruction "COPY".toList body []

def user (body : Text) : Block := .instruction "USER".toList body []

def label (body : Text) : Block := .instruction "LABEL".toList body []

def entrypoint (body : Text) : Block := .instruction "ENTRYPOINT".toList body []

/-- `' '.join(words)`. -/
def join (words : List Text) : Text := [' '].intercalate words

/-- The head of every template. -/
def preamble : List Block :=
  [comment "# syntax=docker/dockerfile:1", comment "# Auto-generated by Argus MCP — do not edit."]

/-- An argument and a variable for every entry. -/
def argEnv (buildEnv : List (Text × Text)) : List Block :=
  buildEnv.flatMap fun e ↦
    [arg (e.1 ++ "=\"".toList ++ e.2 ++ "\"".toList),
      env (e.1 ++ "=\"$\x7b".toList ++ e.1 ++ "\x7d\"".toList) []]

/-- Packages, installed the way of the base image. -/
def installPackages (isAlpine : Bool) (packages : Text) : Block :=
  if isAlpine then
    run ("apk add --no-cache ".toList ++ packages) []
  else
    run "apt-get update && \\".toList
      ["    apt-get install -y --no-install-recommends ".toList ++ packages ++ " && \\".toList,
        "    rm -rf /var/lib/apt/lists/*".toList]

/-- `{% if packages %}`. -/
def installIfAny (isAlpine : Bool) (packages : List Text) : List Block :=
  if packages = [] then [] else [installPackages isAlpine (join packages)]

def adduserDebian : Text :=
  "adduser --disabled-password --uid ".toList ++ containerUid ++ " --home ".toList ++
    containerHome ++ " ".toList ++ containerUser

def adduserAlpine : Text :=
  "adduser -D -u ".toList ++ containerUid ++ " -h ".toList ++ containerHome ++ " ".toList ++
    containerUser

/-- One way to add the user, and the other one if that fails. -/
def createUser (first second : Text) : Block :=
  run ("(".toList ++ first ++ " 2>/dev/null || ".toList ++ second ++ ") \\".toList)
    ["    && mkdir -p ".toList ++ containerHome ++ " \\".toList,
      "    && chown ".toList ++ containerUser ++ ":".toList ++ containerUser ++ " ".toList ++
        containerHome]

/-- What a container runs as. -/
def identity : List Block :=
  [env ("HOME=".toList ++ containerHome ++ " TMPDIR=/tmp".toList) [], user containerUser,
    label "argus.image=\"true\"".toList]

/-- The tool is installed into a directory of its own. -/
def uvxInstall (installCmd : Text) : Block :=
  run "--mount=type=cache,target=/root/.cache/uv \\".toList
    ["    mkdir -p /opt/uv-tools/bin && ".toList ++ installCmd]

def uvxExpose : List Block :=
  [comment "# Expose dependency binaries — uv tool install only symlinks the",
    comment "# top-level package entry points into UV_TOOL_BIN_DIR.  Dependencies",
    comment "# (e.g. ruff for mcp-server-analyzer) live in the tool's venv bin dir.",
    comment "# Symlink any missing executables so they are on PATH at runtime.",
    run "for bin in /opt/uv-tools/*/bin/*; do \\".toList
      ["      [ -x \"$bin\" ] && [ ! -e \"/opt/uv-tools/bin/$(basename \"$bin\")\" ] && \\".toList,
        "      ln -s \"$bin\" \"/opt/uv-tools/bin/$(basename \"$bin\")\" || true; \\".toList,
        "    done".toList],
    blank]

def uvxRuntime : List Block :=
  [copy "--from=builder /opt/uv-tools /opt/uv-tools".toList,
    env "PATH=\"/opt/uv-tools/bin:$PATH\" \\".toList
      ["    PYTHONUNBUFFERED=1 \\".toList, "    PYTHONDONTWRITEBYTECODE=1".toList]]

/-- `uvx.dockerfile.j2`. -/
def uvxTemplate (d : TemplateData) : List Block :=
  preamble ++
  [from' (d.builderImage ++ " AS builder".toList)] ++
  [installPackages d.isAlpine
    (if d.isAlpine then "python3 py3-pip".toList else "python3 python3-pip python3-venv".toList)] ++
  [run "--mount=type=cache,target=/root/.cache/pip \\".toList
    ["    pip install --break-system-packages uv 2>/dev/null || pip install uv".toList]] ++
  argEnv d.buildEnv ++
  installIfAny d.isAlpine d.buildSystemDeps ++
  [env "UV_TOOL_DIR=/opt/uv-tools".toList [], env "UV_TOOL_BIN_DIR=/opt/uv-tools/bin".toList []] ++
  [uvxInstall d.installCmd] ++
  uvxExpose ++
  [from' d.builderImage] ++
  uvxRuntime ++
  installIfAny d.isAlpine d.systemDeps ++
  installIfAny d.isAlpine d.additionalPackages ++
  [createUser adduserDebian adduserAlpine] ++
  identity ++
  [entrypoint ("[\"".toList ++ d.binary ++ "\"]".toList)]

def npxInstall (package : Text) : Block :=
  run "--mount=type=cache,target=/root/.npm \\".toList
    ["    npm install --save ".toList ++ package]

def npxStrategy : List Block :=
  [comment "# Discover the canonical binary name from the installed package.",
    comment "# NPM packages define binaries in package.json \"bin\" field, which",
    comment "# may differ from the package name (e.g. gemini-mcp-tool -> gemini-mcp,",
    .note ("# @modelcontextprotocol/server-sequential-thinking".toList ++
      " -> mcp-server-sequential-thinking).".toList),
    comment "# Strategy: try heuristic name first, then read package.json, then ls fallback."]

def npxResolve (binName packageClean : Text) : Block :=
  run ("BIN_NAME=\"".toList ++ binName ++ "\" \\".toList)
    ["    && test -f \"/app/node_modules/.bin/$BIN_NAME\" \\".toList,
      "    || BIN_NAME=$(node -p '(p=require(\"".toList ++ packageClean ++
        ("/package.json\"),b=p.bin,n=typeof b===\"string\"?".toList ++
          "p.name.replace(/^@[^/]+[/]/,\"\"):b?Object.keys(b)[0]:\"\",".toList ++
          "n||process.exit(1),n)' 2>/dev/null) \\".toList),
      "    || BIN_NAME=$(ls /app/node_modules/.bin/ | head -1) \\".toList,
      "    && test -f \"/app/node_modules/.bin/$BIN_NAME\" \\".toList,
      "    || (echo \"ERROR: no binary found for '".toList ++ packageClean ++
        "'. Available:\" && ls /app/node_modules/.bin/ && exit 1) \\".toList,
      "    && ln -sf \"$BIN_NAME\" /app/node_modules/.bin/__argus_entry \\".toList,
      "    && echo \"Resolved binary: $BIN_NAME\"".toList]

def npxRuntime : List Block :=
  [workdir "/app".toList,
    copy "--from=builder /app/node_modules /app/node_modules".toList,
    env "NODE_PATH=/app/node_modules \\".toList
      ["    NODE_ENV=production \\".toList,
        "    PATH=\"/app/node_modules/.bin:$PATH\"".toList]]

/-- `npx.dockerfile.j2`. -/
def npxTemplate (d : TemplateData) : List Block :=
  preamble ++
  [from' (d.builderImage ++ " AS builder".toList)] ++
  [workdir "/app".toList] ++
  argEnv d.buildEnv ++
  installIfAny d.isAlpine d.buildSystemDeps ++
  [npxInstall d.package] ++
  npxStrategy ++
  [npxResolve d.binName d.packageClean] ++
  [blank] ++
  [from' d.builderImage] ++
  npxRuntime ++
  installIfAny d.isAlpine d.systemDeps ++
  installIfAny d.isAlpine d.additionalPackages ++
  [createUser adduserAlpine adduserDebian] ++
  identity ++
  [entrypoint "[\"/app/node_modules/.bin/__argus_entry\"]".toList]

/-- The packages of the Go builder: the ones that were asked for, or those it cannot do without. -/
def goBuildPackages (d : TemplateData) : Text :=
  if d.buildSystemDeps ≠ [] then
    (if d.additionalPackages ≠ [] then join d.additionalPackages
      else "ca-certificates git".toList) ++ ' ' :: join d.buildSystemDeps
  else if d.additionalPackages ≠ [] then join d.additionalPackages
  else "ca-certificates git".toList

def goEnvironment : List Block :=
  [blank,
    comment "# Set environment variables for reproducible static builds",
    env "CGO_ENABLED=0 \\".toList ["    GOOS=linux \\".toList, "    GO111MODULE=on".toList],
    blank,
    workdir "/build".toList,
    blank,
    comment "# Install the Go package — handles versioned and unversioned specifiers.",
    comment "# If no @version is present, @latest is appended automatically."]

def goInstall (goPackage : Text) : Block :=
  run "--mount=type=cache,target=/root/.cache/go-build \\".toList
    ["    --mount=type=cache,target=/go/pkg/mod \\".toList,
      "    package=\"".toList ++ goPackage ++ "\"; \\".toList,
      "    if ! echo \"$package\" | grep -q '@'; then \\".toList,
      "        package=\"$\x7bpackage\x7d@latest\"; \\".toList,
      "    fi; \\".toList,
      "    mkdir -p /app && \\".toList,
      "    go install \"$package\" && \\".toList,
      "    mv $GOPATH/bin/* /app/mcp-server 2>/dev/null || \\".toList,
      "    find $GOPATH/bin -type f -executable -exec mv \x7b\x7d /app/mcp-server \\;".toList ++
        " 2>/dev/null || \\".toList,
      "    (base_package=$(echo \"$package\" | sed 's/@.*//'); \\".toList,
      "     go get \"$package\" && go build -o /app/mcp-server \"$base_package\")".toList]

def goRuntime : List Block :=
  [blank,
    comment "# Final stage — minimal runtime image",
    from' "alpine:3.21".toList,
    blank,
    comment "# Runtime dependencies only",
    run "apk add --no-cache ca-certificates".toList [],
    blank,
    workdir "/app".toList,
    blank,
    .note ("# Create a non-root user (UID ".toList ++ containerUid ++
      " — distroless/Chainguard standard)".toList),
    run ("addgroup -g ".toList ++ containerUid ++ " -S ".toList ++ containerUser ++
        " && \\".toList)
      ["    adduser -u ".toList ++ containerUid ++ " -S ".toList ++ containerUser ++
          " -G ".toList ++ containerUser ++ " -h ".toList ++ containerHome ++ " && \\".toList,
        "    mkdir -p /app ".toList ++ containerHome ++ " && \\".toList,
        "    chown -R ".toList ++ containerUser ++ ":".toList ++ containerUser ++ " /app ".toList ++
          containerHome],
    env ("HOME=".toList ++ containerHome ++ " TMPDIR=/tmp".toList) []]

def goCopy : List Block :=
  [blank,
    comment "# Copy the pre-built binary from builder stage",
    copy ("--from=builder --chown=".toList ++ containerUser ++ ":".toList ++ containerUser ++
      " /app/mcp-server /app/mcp-server".toList),
    blank,
    comment "# Switch to non-root user",
    user containerUser,
    label "argus.image=\"true\"".toList,
    blank,
    comment "# Run the pre-built MCP server binary"]

/-- What the binary is started with. -/
def entrypointArgs (runtimeArgs : List Text) : Text :=
  runtimeArgs.flatMap fun part ↦ ", \"".toList ++ part ++ "\"".toList

/-- `go.dockerfile.j2`. -/
def goTemplate (d : TemplateData) : List Block :=
  preamble ++
  [from' (d.builderImage ++ " AS builder".toList)] ++
  (d.buildEnv.map fun e ↦ env (e.1 ++ "=\"".toList ++ e.2 ++ "\"".toList) []) ++
  [blank, comment "# Install build dependencies"] ++
  [run ("apk add --no-cache ".toList ++ goBuildPackages d) []] ++
  goEnvironment ++
  [goInstall d.goPackage] ++
  goRuntime ++
  (if d.systemDeps = [] then []
    else
      [blank, comment "# System dependencies from backend config"] ++
        [installPackages true (join d.systemDeps)]) ++
  goCopy ++
  [entrypoint ("[\"/app/mcp-server\"".toList ++ entrypointArgs d.runtimeArgs ++ "]".toList)]

/-- The token for a private repository is there during the clone. -/
def netrc (host : Text) : Block :=
  run "if [ -n \"$\x7bGIT_AUTH_TOKEN:-\x7d\" ]; then \\".toList
    ["      printf 'machine ".toList ++ host ++
        ("\\nlogin x-access-token\\npassword %s\\n' \"$GIT_AUTH_TOKEN\"".toList ++
          " > /root/.netrc && \\".toList),
      "      chmod 600 /root/.netrc; \\".toList,
      "    fi".toList]

/-- What is cloned: a branch, if there is a reference, and from where. -/
def cloneSource (ref url : Text) : Text :=
  (if ref = [] then [] else "--branch ".toList ++ ref ++ " ".toList) ++ url

def sourceCopy (isAlpine : Bool) : List Block :=
  (if isAlpine then [copy "--from=builder /usr/local/ /usr/local/".toList]
    else
      [comment "# Carry over pip-installed packages and console-script binaries.",
        copy "--from=builder /usr/local/lib/ /usr/local/lib/".toList,
        copy "--from=builder /usr/local/bin/ /usr/local/bin/".toList]) ++
  [copy "--from=builder /src/repo /app".toList]

/-- `source.dockerfile.j2`. -/
def sourceTemplate (d : TemplateData) : List Block :=
  preamble ++
  [from' (d.builderImage ++ " AS builder".toList)] ++
  [workdir "/src".toList] ++
  argEnv d.buildEnv ++
  installIfAny d.isAlpine d.buildSystemDeps ++
  (if d.sourceUrlHost = [] then []
    else
      [comment "# Private repo auth via .netrc (uses GIT_AUTH_TOKEN if set)"] ++
        [netrc d.sourceUrlHost]) ++
  [run ("git clone --depth 1 ".toList ++ cloneSource d.sourceRef d.sourceUrl ++
    " /src/repo".toList) []] ++
  [workdir "/src/repo".toList] ++
  (if d.sourceUrlHost = [] then [] else [run "rm -f /root/.netrc".toList []]) ++
  (d.buildSteps.map fun step ↦ run step []) ++
  [blank] ++
  [from' d.builderImage] ++
  [workdir "/app".toList] ++
  sourceCopy d.isAlpine ++
  installIfAny d.isAlpine d.systemDeps ++
  installIfAny d.isAlpine d.additionalPackages ++
  [createUser adduserDebian adduserAlpine] ++
  identity ++
  [entrypoint ("[".toList ++ ", ".toList.intercalate
    (d.entrypoint.map fun part ↦ "\"".toList ++ part ++ "\"".toList) ++ "]".toList)]

/-! ## Generators -/

def validateBuildInputs (package : Text) (buildEnv : List (Text × Text)) (systemDeps : List Text) :
    Except ValidationError (Text × List (Text × Text) × List Text) := do
  let package ← validatePackageName package
  let validatedDeps ← validateSystemDeps systemDeps
  let validatedEnv ← validateBuildEnv buildEnv
  return (package, validatedEnv, validatedDeps)

/-- `builder_image or rc.builder_image`. -/
def imageOr (builderImage : Option Text) (rc : RuntimeConfig) : Text :=
  (builderImage.filter (· ≠ [])).getD rc.builderImage

def generateUvxDockerfile (package binary : Text) (builderImage : Option Text)
    (buildEnv : List (Text × Text)) (systemDeps buildSystemDeps : List Text) (rc : RuntimeConfig) :
    Except ValidationError (List Block) := do
  let (package, validatedEnv, validatedDeps) ← validateBuildInputs package buildEnv systemDeps
  let validatedBuildDeps ← validateSystemDeps buildSystemDeps
  return uvxTemplate
    { package, packageClean := stripVersion package, binary
      builderImage := imageOr builderImage rc
      installCmd := computeUvxInstallCmd package
      systemDeps := validatedDeps, buildSystemDeps := validatedBuildDeps
      buildEnv := validatedEnv, additionalPackages := rc.additionalPackages }

def generateNpxDockerfile (package : Text) (builderImage : Option Text)
    (buildEnv : List (Text × Text)) (systemDeps buildSystemDeps : List Text) (rc : RuntimeConfig) :
    Except ValidationError (List Block) := do
  let (package, validatedEnv, validatedDeps) ← validateBuildInputs package buildEnv systemDeps
  let validatedBuildDeps ← validateSystemDeps buildSystemDeps
  let cleanName := stripVersion package
  return npxTemplate
    { package, packageClean := cleanName, binary := "__argus_entry".toList
      builderImage := imageOr builderImage rc
      installCmd := "npm install --save ".toList ++ package
      systemDeps := validatedDeps, buildSystemDeps := validatedBuildDeps
      buildEnv := validatedEnv, additionalPackages := rc.additionalPackages
      binName := npmBinName cleanName }

def generateGoDockerfile (goPackage : Text) (builderImage : Option Text)
    (buildEnv : List (Text × Text)) (systemDeps buildSystemDeps : List Text) (rc : RuntimeConfig)
    (runtimeArgs : List Text) : Except ValidationError (List Block) := do
  let (goPackage, validatedEnv, validatedDeps) ← validateBuildInputs goPackage buildEnv systemDeps
  let validatedBuildDeps ← validateSystemDeps buildSystemDeps
  let cleanName := if '@' ∈ goPackage then beforeLast '@' goPackage else goPackage
  return goTemplate
    { package := goPackage, packageClean := cleanName, binary := "/app/mcp-server".toList
      builderImage := imageOr builderImage rc
      installCmd := "go install ".toList ++ goPackage
      systemDeps := validatedDeps, buildSystemDeps := validatedBuildDeps
      buildEnv := validatedEnv, additionalPackages := rc.additionalPackages
      goPackage, runtimeArgs }

def generateSourceDockerfile (sourceUrl : Text) (buildSteps entrypoint : List Text)
    (sourceRef : Option Text) (builderImage : Option Text) (buildEnv : List (Text × Text))
    (systemDeps buildSystemDeps : List Text) (rc : RuntimeConfig) :
    Except ValidationError (List Block) := do
  let validatedDeps ← validateSystemDeps systemDeps
  let validatedBuildDeps ← validateSystemDeps buildSystemDeps
  let validatedEnv ← validateBuildEnv buildEnv
  -- git is there for the clone
  let validatedBuildDeps :=
    if "git".toList ∈ validatedBuildDeps then validatedBuildDeps
    else "git".toList :: validatedBuildDeps
  let repoName := removeGit (afterLast '/' (sourceUrl.rdropWhile fun c ↦ c = '/'))
  return sourceTemplate
    { package := repoName, packageClean := repoName, binary := entrypoint.head?.getD []
      builderImage := imageOr builderImage rc
      systemDeps := validatedDeps, buildSystemDeps := validatedBuildDeps
      buildEnv := validatedEnv, additionalPackages := rc.additionalPackages
      sourceUrl, sourceRef := sourceRef.getD [], buildSteps, entrypoint
      sourceUrlHost := sourceUrlHost sourceUrl }

/-! ## Configurations -/

/-- What of an accepted `ContainerConfig` goes into a Dockerfile. -/
structure ContainerConfig where
  systemDeps : List Text
  buildSystemDeps : List Text
  builderImage : Option Text
  additionalPackages : List Text
  sourceRef : Option Text
  buildSteps : List Text
  entrypoint : Option (List Text)
  buildEnv : List (Text × Text)
  /-- `_validate_build_steps`. -/
  buildSteps_safe : ∀ step ∈ buildSteps, ∀ c ∈ step, c ∉ "\x60$()".toList
  /-- `_validate_entrypoint`. -/
  entrypoint_safe : ∀ parts ∈ entrypoint, ∀ part ∈ parts, ∀ c ∈ part, c ∉ shellUnsafe
  /-- `_validate_build_env`. -/
  buildEnv_keys : ∀ e ∈ buildEnv, isEnvKey e.1

/-- What there is to be put into a container, as the arguments of the command say. -/
inductive Backend where
  | uvx (package binary : Text)
  | npx (package : Text)
  | go (package : Text) (runtimeArgs : List Text)
  | source (url : Text)

/-- Node gets a base image of its own, recognised by what is done with it. -/
def sourceTransport (buildSteps entrypoint : List Text) : Transport :=
  let stepsJoined := lower (join buildSteps)
  let epFirst := lower (entrypoint.head?.getD [])
  if (["npm ".toList, "npx ".toList, "yarn ".toList, "pnpm ".toList, "node ".toList].any
      fun indicator ↦ decide (indicator <:+: stepsJoined)) || epFirst = "node".toList then
    .npx
  else
    .uvx

namespace ContainerConfig

variable (c : ContainerConfig)

def runtimeConfig (transport : Transport) : RuntimeConfig :=
  .forTransport transport c.builderImage c.additionalPackages

def transport : Backend → Transport
  | .uvx _ _ => .uvx
  | .npx _ => .npx
  | .go _ _ => .go
  | .source _ => sourceTransport c.buildSteps (c.entrypoint.getD [])

def image (backend : Backend) : Text :=
  imageOr c.builderImage (c.runtimeConfig (c.transport backend))

def packages (backend : Backend) : List Text :=
  (c.runtimeConfig (c.transport backend)).additionalPackages

def generateDockerfile (backend : Backend) : Except ValidationError (List Block) :=
  let rc := c.runtimeConfig (c.transport backend)
  match backend with
  | .uvx package binary =>
    generateUvxDockerfile package binary c.builderImage c.buildEnv c.systemDeps c.buildSystemDeps rc
  | .npx package =>
    generateNpxDockerfile package c.builderImage c.buildEnv c.systemDeps c.buildSystemDeps rc
  | .go package runtimeArgs =>
    generateGoDockerfile package c.builderImage c.buildEnv c.systemDeps c.buildSystemDeps rc
      runtimeArgs
  | .source url =>
    generateSourceDockerfile url c.buildSteps (c.entrypoint.getD []) c.sourceRef c.builderImage
      c.buildEnv c.systemDeps c.buildSystemDeps rc

end ContainerConfig

end Container

end ArgusMcp
