import SoftwareCatalog.Component.Flag

namespace SoftwareCatalog

/-- Special features of a component. -/
inductive Hallmark where
  | compulsory | hasSource | matchAnyPrefix | needsReboot | notReviewable | notLaunchable
  | provenance | needsUserAction
deriving DecidableEq, Repr

namespace Hallmark

def label : Hallmark → String
  | .compulsory => "COMPULSORY"
  | .hasSource => "HAS_SOURCE"
  | .matchAnyPrefix => "MATCH_ANY_PREFIX"
  | .needsReboot => "NEEDS_REBOOT"
  | .notReviewable => "NOT_REVIEWABLE"
  | .notLaunchable => "NOT_LAUNCHABLE"
  | .provenance => "PROVENANCE"
  | .needsUserAction => "NEEDS_USER_ACTION"

instance : Flag Hallmark where
  all := [.compulsory, .hasSource, .matchAnyPrefix, .needsReboot, .notReviewable, .notLaunchable,
    .provenance, .needsUserAction]
  mem_all i := by cases i <;> decide
  label := label

def ofName? : String → Option Hallmark
  | "compulsory" => some .compulsory
  | "has-source" => some .hasSource
  | "match-any-prefix" => some .matchAnyPrefix
  | "needs-reboot" => some .needsReboot
  | "not-reviewable" => some .notReviewable
  | "not-launchable" => some .notLaunchable
  | "provenance" => some .provenance
  | "needs-user-action" => some .needsUserAction
  | _ => none

end Hallmark

end SoftwareCatalog
