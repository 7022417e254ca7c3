import CodeCalc.Sessions.Snapshot

/-! Paths that a caller hands to a file tool, as far as their text decides: the
bounds that `_jail` and `_jail_nofollow` share, and the components that the
latter makes of a path. -/
namespace CodeCalc.Files
open Lib Errors Snapshots

def maxJailPathLen : Nat := 4096

def maxJailPathSegments : Nat := 256

/-- What `_session_dir` and the jails raise. -/
inductive Guard where
  | sessionId
  | tooLong (length : Nat)
  | tooMany (segments : Nat)
  | escapes
  deriving DecidableEq

def Guard.message : Guard → String
  | .sessionId => "invalid session id"
  | .tooLong length =>
      "path too long (" ++ toString length ++ " chars, max " ++ toString maxJailPathLen ++ ")"
  | .tooMany segments =>
      "path has too many segments (" ++ toString segments ++ ", max " ++ toString maxJailPathSegments ++ ")"
  | .escapes => "path escapes session workspace"

def guardError (guard : Guard) : Fields :=
  let code := match guard with
    | .sessionId => .validation
    | .tooLong _ | .tooMany _ => .resourceExhausted
    | .escapes => .permissionDenied
  errorResult code guard.message []

def separator (code : CodePoint) : Bool := code = .ofChar '/' || code = .ofChar '\\'

/-- `re.split(r"[/\\]", path)`. -/
def components (path : Text) : List Text := path.splitOnP separator

def segments (path : Text) : Nat := path.count (.ofChar '/') + path.count (.ofChar '\\') + 1

def hasUnescapedSurrogate (name : Text) : Bool :=
  name.any fun code => decide (0xD800 ≤ code.val ∧ code.val ≤ 0xDFFF) &&
    decide (code.val < 0xDC80 ∨ 0xDCFF < code.val)

/-- `_refuse_unrepresentable_component` lets the name pass. -/
def representable (name : Text) : Bool := !(name.contains (.ofChar '\x00')) && !hasUnescapedSurrogate name

/-- What both jails ask first. -/
def pathBounds (path : Text) : Except Guard Unit :=
  if maxJailPathLen < path.length then .error (.tooLong path.length)
  else if maxJailPathSegments < segments path then .error (.tooMany (segments path))
  else .ok ()

/-- The parts that are left when the empty ones and the dots are dropped. -/
def partsOf (path : Text) : List Text := (components path).filter fun part => part ≠ [] ∧ part ≠ dot

def driveColon : Text → Bool
  | _ :: colon :: _ => colon = .ofChar ':'
  | _ => false

/-- `_jail_nofollow`, where `absolute` is `PurePath(path).is_absolute()`. -/
def jailNofollow (absolute : Text → Bool) (path : Text) : Except Guard (List Text) :=
  match pathBounds path with
  | .error guard => .error guard
  | .ok () =>
      if absolute path ∨ driveColon path then .error .escapes
      else if partsOf path = [] ∨ dotDot ∈ partsOf path then .error .escapes
      else if (partsOf path).all representable then .ok (partsOf path)
      else .error .escapes

section Parts

variable {absolute : Text → Bool} {path : Text} {parts : List Text}

theorem jailNofollow_parts (jailed : jailNofollow absolute path = .ok parts) :
    parts = partsOf path ∧ parts ≠ [] ∧ dotDot ∉ parts ∧ ∀ part ∈ parts, representable part := by
  unfold jailNofollow at jailed
  split at jailed
  · cases jailed
  · split at jailed
    · cases jailed
    · split at jailed
      · cases jailed
      · rename_i proper
        obtain ⟨some, climbs⟩ := not_or.mp proper
        split at jailed
        · rename_i all
          cases jailed
          exact ⟨rfl, some, climbs, List.all_eq_true.mp all⟩
        · cases jailed

theorem jailNofollow_valid (jailed : jailNofollow absolute path = .ok parts) : ValidPath parts := by
  obtain ⟨rfl, some, climbs, all⟩ := jailNofollow_parts jailed
  refine ⟨some, fun part member => ?_⟩
  obtain ⟨split, kept⟩ := List.mem_filter.mp member
  obtain ⟨nonempty, notDot⟩ := of_decide_eq_true kept
  have named := all part member
  simp only [representable, Bool.and_eq_true, Bool.not_eq_true', List.contains_eq_mem,
    decide_eq_false_iff_not] at named
  refine ⟨nonempty, notDot, fun same => climbs (same ▸ member), fun found => ?_, named.1⟩
  have apart := (mem_splitOnP split).1 _ found
  exact absurd apart (by decide)

end Parts

end CodeCalc.Files
