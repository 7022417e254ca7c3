import CodeCalc.Gateway.Dependencies
import CodeCalc.Lib.Substitute

/-! What may be handed to a package manager: the command line and the cache variables
of each language's manager, and the checks on a name and a version before they take
the package's place in it. -/
namespace CodeCalc.Packages

open Lib Errors

section Tables

/-- An entry of `_INSTALLERS`. -/
structure Installer where
  manager : String
  command : List String
  hints : List (String × String)

def targetMark : String := "\x7btarget\x7d"

def pkgMark : String := "\x7bpkg\x7d"

def installers : List (String × Installer) :=
  [("python3", ⟨"uv", ["uv", "pip", "install", "--only-binary=:all:", "--target", targetMark, pkgMark],
      [("UV_CACHE_DIR", targetMark ++ "/.cache/uv")]⟩),
    ("node", ⟨"npm", ["npm", "install", pkgMark, "--prefix", targetMark, "--ignore-scripts", "--no-save",
        "--no-audit", "--no-fund"], [("npm_config_cache", targetMark ++ "/.cache/npm")]⟩),
    ("bun", ⟨"bun", ["bun", "add", "--ignore-scripts", pkgMark],
      [("BUN_INSTALL_CACHE_DIR", targetMark ++ "/.cache/bun")]⟩),
    ("deno", ⟨"deno", ["deno", "install", pkgMark], []⟩),
    ("php", ⟨"composer", ["composer", "require", "--no-scripts", pkgMark],
      [("COMPOSER_HOME", targetMark ++ "/.cache/composer"),
        ("COMPOSER_CACHE_DIR", targetMark ++ "/.cache/composer")]⟩),
    ("go", ⟨"go", ["go", "get", pkgMark],
      [("GOMODCACHE", targetMark ++ "/.cache/go/mod"), ("GOPATH", targetMark ++ "/.cache/go")]⟩),
    ("rust", ⟨"cargo", ["cargo", "add", pkgMark], [("CARGO_HOME", targetMark ++ "/.cache/cargo")]⟩)]

def noExecFlag : List (String × String) :=
  [("python3", "--only-binary=:all:"), ("node", "--ignore-scripts"), ("bun", "--ignore-scripts"),
    ("php", "--no-scripts")]

def unsupported : List String :=
  ["java", "csharp", "kotlin", "swift", "zig", "elixir", "erlang", "gleam", "haskell", "fortran", "c",
    "cpp", "c++", "perl", "lua", "tcl", "bash", "zsh", "awk", "jq", "sqlite", "mojo", "typescript",
    "ruby", "r"]

def declinedReason : List (String × String) :=
  [("ruby", "gem installs into the interpreter's global gem directory; scoping it " ++
      "to a workspace needs GEM_HOME in the executor env allowlist, which is " ++
      "the CRITICAL-02 fix and is not widened for this"),
    ("r", "install.packages writes to the global R site-library; scoping it needs " ++
      "R_LIBS in the executor env allowlist, same reason")]

def confinable : List String := ["python3", "node", "bun", "php", "go", "rust", "deno"]

def confinableDarwin : List String := ["python3", "node", "bun", "php", "go", "rust", "deno"]

def deviceNodes : List String := ["/dev/null", "/dev/zero", "/dev/urandom", "/dev/random"]

/-- The variables whose directories the confinement opens for writing. -/
def cacheKeys : List String :=
  ["UV_CACHE_DIR", "npm_config_cache", "BUN_INSTALL_CACHE_DIR", "COMPOSER_HOME", "COMPOSER_CACHE_DIR",
    "CARGO_HOME", "GOMODCACHE", "GOPATH"]

def allowlistEnv : String := "CODECALC_PACKAGE_ALLOWLIST"

def winInstallConfineEnv : String := "CODECALC_WIN_INSTALL_CONFINE"

end Tables

section Checks

/-- A character of `_PACKAGE_NAME_RE`. -/
def isPackageChar (char : Char) : Bool :=
  char.isAlphanum ||
    ['.', '_', '@', '/', '[', ']', '+', '~', '=', '<', '>', '!', ',', '-', ' '].contains char

/-- `_PACKAGE_NAME_RE.fullmatch`. -/
def isPackageName (text : List Char) : Bool := !text.isEmpty && text.all isPackageChar

def isBlank (char : Char) : Bool := isSpace (CodePoint.ofChar char)

def hasEmbeddedFlag : List Char → Bool
  | first :: next :: rest => (isBlank first && decide (next = '-')) || hasEmbeddedFlag (next :: rest)
  | _ => false

/-- A character of `_QUALIFIER_RE`. -/
def isQualifier (char : Char) : Bool := ['[', '=', '<', '>', '!', '~', ',', ' '].contains char

/-- `str.lower` and `repr` of a string. -/
structure Strings where
  lower : String → String
  repr : String → String

variable (strings : Strings)

def bareName (package : String) : String :=
  strings.lower (Capabilities.strip
    (String.ofList (package.toList.takeWhile fun char => !isQualifier char)))

/-- `_allowlist`: unset is not the same as empty. -/
def allowlist (environ : List (String × String)) : Option (List String) :=
  (environ.lookup allowlistEnv).map fun raw =>
    ((raw.splitOn ",").filter fun entry => decide (Capabilities.strip entry ≠ "")).map fun entry =>
      strings.lower (Capabilities.strip entry)

def allowlistDenial (environ : List (String × String)) (language package : String) : Option String :=
  match allowlist strings environ with
  | none => none
  | some entries =>
      let bare := bareName strings package
      if bare ∈ entries ∨ language ++ ":" ++ bare ∈ entries then none
      else some ("package " ++ strings.repr bare ++ " is not on the " ++ allowlistEnv ++
        " allowlist for ecosystem '" ++ language ++ "'; deny-by-default is active because " ++
        allowlistEnv ++ " is set")

/-- The checks that a package name and a version have in common, in their order. -/
def formatFault (empty what which text : String) : Option String :=
  if text = "" then some empty
  else if text.toList.head? = some '-' then
    some ("invalid " ++ what ++ " " ++ strings.repr text ++ ": a " ++ which ++ " starting " ++
      "with '-' would be read as a command-line flag by the package manager")
  else if isPackageName text.toList = false then
    some ("invalid " ++ what ++ " " ++ strings.repr text ++ ": expected letters, " ++
      "digits and . _ - @ / [ ] + ~ = < > ! , or spaces")
  else none

def flagFault (what text : String) : Option String :=
  if hasEmbeddedFlag text.toList then
    some ("invalid " ++ what ++ " " ++ strings.repr text ++ ": a space followed " ++
      "by '-' looks like an embedded command-line flag")
  else none

/-- What `install` refuses of a name and a version. -/
def fault (package : String) (version : Option String) : Option String :=
  (formatFault strings "no package name given" "package name" "name" package).or <|
    (version.bind (formatFault strings "empty version given" "version" "version")).or <|
      (flagFault strings "package name" package).or <|
        version.bind (flagFault strings "version")

/-- The text that takes the package's place. -/
def spec (package : String) (version : Option String) : String :=
  match version with
  | some version => if version = "" then package else package ++ "==" ++ version
  | none => package

end Checks

section Inert

/-- A text that no manager reads as an option. -/
structure Inert (text : List Char) : Prop where
  nonempty : text ≠ []
  first : text.head? ≠ some '-'
  plain : ∀ char ∈ text, isPackageChar char = true
  whole : hasEmbeddedFlag text = false

variable {strings : Strings} {package language : String} {version : Option String}

theorem inert_of_checked {empty what which text : String}
    (format : formatFault strings empty what which text = none)
    (whole : flagFault strings what text = none) : Inert text.toList := by
  unfold formatFault at format
  unfold flagFault at whole
  split_ifs at format with blank first name
  split_ifs at whole with flag
  rw [Bool.not_eq_false, isPackageName, Bool.and_eq_true, List.all_eq_true] at name
  exact ⟨by simpa using blank, first, name.2, Bool.eq_false_iff.mpr flag⟩

/-- A character in between that is no hyphen keeps two texts apart. -/
theorem hasEmbeddedFlag_append_cons {char : Char} (joint : char ≠ '-') (front back : List Char) :
    hasEmbeddedFlag (front ++ char :: back) =
      (hasEmbeddedFlag front || hasEmbeddedFlag (char :: back)) := by
  induction front with
  | nil => rfl
  | cons first rest ih =>
    cases rest with
    | nil =>
      rw [List.cons_append, List.nil_append, hasEmbeddedFlag, decide_eq_false joint, Bool.and_false,
        Bool.false_or]
      rfl
    | cons next rest =>
      rw [List.cons_append] at ih
      rw [List.cons_append, List.cons_append, hasEmbeddedFlag, ih, hasEmbeddedFlag, Bool.or_assoc]

theorem Inert.pinned {name version : List Char} (named : Inert name) (versioned : Inert version) :
    Inert (name ++ '=' :: '=' :: version) where
  nonempty := by simp
  first := by
    rw [List.head?_append_of_ne_nil _ named.nonempty]
    exact named.first
  plain char member := by
    simp only [List.mem_append, List.mem_cons] at member
    rcases member with member | rfl | rfl | member
    · exact named.plain char member
    · decide
    · decide
    · exact versioned.plain char member
  whole := by
    have apart : hasEmbeddedFlag ('=' :: version) = false := by
      obtain ⟨first, rest, rfl⟩ := List.exists_cons_of_ne_nil versioned.nonempty
      rw [hasEmbeddedFlag, versioned.whole, Bool.or_false]
      exact Bool.and_eq_false_imp.mpr fun blank => absurd blank (by decide)
    rw [hasEmbeddedFlag_append_cons (by decide), named.whole, Bool.false_or, hasEmbeddedFlag, apart]
    decide

theorem toList_spec_some {version : String} (given : version ≠ "") (package : String) :
    (spec package (some version)).toList = package.toList ++ '=' :: '=' :: version.toList := by
  rw [spec, if_neg given, String.toList_append, String.toList_append, List.append_assoc]
  rfl

theorem inert_spec (checked : fault strings package version = none) :
    Inert (spec package version).toList := by
  unfold fault at checked
  simp only [Option.or_eq_none_iff] at checked
  obtain ⟨format, versionFormat, whole, versionWhole⟩ := checked
  have named := inert_of_checked format whole
  cases version with
  | none => exact named
  | some version =>
    have versioned := inert_of_checked versionFormat versionWhole
    have given : version ≠ "" := fun empty => versioned.nonempty (by rw [empty]; rfl)
    rw [toList_spec_some given]
    exact named.pinned versioned

end Inert

section Listed

variable (strings : Strings) (environ : List (String × String)) (language : String)

def Listed (text : List Char) : Prop :=
  ∀ entries, allowlist strings environ = some entries → ∃ name rest, text = name ++ rest ∧
    (∀ char ∈ name, isQualifier char = false) ∧ (∀ char ∈ rest.head?, isQualifier char = true) ∧
    (strings.lower (String.ofList name) ∈ entries ∨
      language ++ ":" ++ strings.lower (String.ofList name) ∈ entries)

variable {strings environ language} {package : String} {version : Option String}

theorem isQualifier_of_blank {char : Char} (plain : isPackageChar char = true)
    (blank : isBlank char = true) : isQualifier char = true := by
  rw [isPackageChar, Bool.or_eq_true] at plain
  rcases plain with letter | mark
  · exfalso
    rw [isBlank, isSpace, decide_eq_true_eq, CodePoint.ofChar] at blank
    delta Char.isAlphanum Char.isAlpha Char.isUpper Char.isLower Char.isDigit at letter
    simp only [Bool.or_eq_true, decide_eq_true_eq, UInt32.le_iff_toNat_le] at letter
    simp only [↓Char.isValue, Char.reduceVal, UInt32.reduceToNat, Char.toNat_val, Bool.and_eq_true,
      decide_eq_true_eq] at blank letter
    omega
  · simp only [List.contains_iff_mem, List.mem_cons, List.not_mem_nil, or_false] at mark
    revert blank
    rcases mark with rfl | rfl | rfl | rfl | rfl | rfl | rfl | rfl | rfl | rfl | rfl | rfl | rfl | rfl | rfl <;>
      decide

theorem strip_eq_self {text : List Char} (solid : ∀ char ∈ text, isBlank char = false) :
    Capabilities.strip (String.ofList text) = String.ofList text := by
  have front : text.dropWhile isBlank = text := by
    rw [List.dropWhile_eq_self_iff]
    intro nonempty
    rw [solid _ (List.getElem_mem nonempty)]
    decide
  have back : text.rdropWhile isBlank = text := by
    rw [List.rdropWhile_eq_self_iff]
    intro nonempty
    rw [solid _ (List.getLast_mem nonempty)]
    decide
  change String.ofList (((String.ofList text).toList.dropWhile isBlank).rdropWhile isBlank) = _
  rw [String.toList_ofList, front, back]

theorem head_dropWhile {α : Type} (holds : α → Bool) (items : List α) :
    ∀ item ∈ (items.dropWhile holds).head?, holds item = false := by
  intro item head
  have fails := List.head?_dropWhile_not holds items
  rwa [Option.mem_def.mp head] at fails

theorem listed_package (plain : ∀ char ∈ package.toList, isPackageChar char = true)
    (allowed : allowlistDenial strings environ language package = none) :
    Listed strings environ language package.toList := by
  intro entries set
  refine ⟨package.toList.takeWhile fun char => !isQualifier char,
    package.toList.dropWhile fun char => !isQualifier char, List.takeWhile_append_dropWhile.symm, ?_, ?_, ?_⟩
  · intro char member
    simpa using List.mem_takeWhile_imp member
  · intro char head
    simpa using head_dropWhile _ _ char head
  · have solid : ∀ char ∈ package.toList.takeWhile fun char => !isQualifier char, isBlank char = false := by
      intro char member
      by_contra blank
      have qualifier := isQualifier_of_blank (plain char ((List.takeWhile_prefix _).subset member))
        (by simpa using blank)
      have := List.mem_takeWhile_imp member
      rw [qualifier] at this
      cases this
    have bare : bareName strings package = strings.lower
        (String.ofList (package.toList.takeWhile fun char => !isQualifier char)) := by
      rw [bareName, strip_eq_self solid]
    rw [← bare]
    by_contra absent
    rw [allowlistDenial, set] at allowed
    dsimp only at allowed
    rw [if_neg absent] at allowed
    cases allowed

theorem Listed.append {text rest : List Char} (listed : Listed strings environ language text)
    (qualifier : ∀ char ∈ rest.head?, isQualifier char = true) :
    Listed strings environ language (text ++ rest) := by
  intro entries set
  obtain ⟨name, tail, rfl, clear, next, entry⟩ := listed entries set
  refine ⟨name, tail ++ rest, List.append_assoc .., clear, ?_, entry⟩
  cases tail with
  | nil => exact qualifier
  | cons first others => exact next

theorem listed_spec (checked : fault strings package version = none)
    (allowed : allowlistDenial strings environ language package = none) :
    Listed strings environ language (spec package version).toList := by
  have plain : ∀ char ∈ package.toList, isPackageChar char = true := by
    have named := inert_spec (@id (fault strings package none = none) (by
      unfold fault at checked ⊢
      simp only [Option.or_eq_none_iff] at checked ⊢
      exact ⟨checked.1, rfl, checked.2.2.1, rfl⟩))
    exact named.plain
  have listed := listed_package plain allowed
  cases version with
  | none => exact listed
  | some version =>
    by_cases empty : version = ""
    · rw [spec, if_pos empty]
      exact listed
    · rw [toList_spec_some empty]
      exact listed.append fun char head => by
        cases head
        decide

end Listed

end CodeCalc.Packages
