/- digest: Skills: where they come from, how far they are trusted, and what is loaded of them. -/

import Mathlib.Data.List.Basic

set_option autoImplicit false
set_option relaxedAutoImplicit false

namespace Gyre.Skills

/-- Trust state of a skill, `installed` below `trusted`. -/
inductive SkillTrust where
  | installed
  | trusted
  deriving DecidableEq, Repr

def SkillTrust.min : SkillTrust → SkillTrust → SkillTrust
  | .trusted, .trusted => .trusted
  | _, _ => .installed

/-- `Display`. -/
def SkillTrust.display : SkillTrust → String
  | .installed => "installed"
  | .trusted => "trusted"

/-- Where a skill was loaded from. -/
inductive SkillSource where
  | workspace (path : String)
  | user (path : String)
  | bundled (path : String)
  deriving DecidableEq, Repr

structure ActivationCriteria where
  keywords : List String
  patterns : List String
  tags : List String
  maxContextTokens : Nat
  deriving DecidableEq, Repr

structure GatingRequirements where
  bins : List String
  env : List String
  config : List String
  deriving DecidableEq, Repr

/-- Parsed frontmatter of a `SKILL.md`; `requires` is present when both layers of its metadata
are. -/
structure SkillManifest where
  name : String
  version : String
  description : String
  activation : ActivationCriteria
  requires : Option GatingRequirements
  deriving DecidableEq, Repr

structure LoadedSkill where
  manifest : SkillManifest
  promptContent : String
  trust : SkillTrust
  source : SkillSource
  deriving DecidableEq, Repr

end Gyre.Skills
