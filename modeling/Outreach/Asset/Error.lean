import Outreach.Asset.Category
import Outreach.Asset.Flow

/-!
# Outreach.Asset.Error

How it fails to get at the assets of an org.
-/

namespace Outreach

inductive AssetError where
  | load (part : Part) (org : OrgId) (cause : LoadFailure)
  | flowNotFound (flow : FlowRef) (org : OrgId)
  | flowLoad (flow : FlowRef) (org : OrgId) (cause : LoadFailure)
  | unknownFlow (uuid : Uuid) (org : OrgId)
  /-- Stands for no answer at all. Who asks for a full build of an org in the course of one of the
  same org waits for that one to end, which waits in turn, so that neither of them returns. -/
  | buildInProgress (org : OrgId)
deriving DecidableEq

namespace AssetError

def message : AssetError → String
  | load part org _ => "error loading " ++ part.name ++ s!" for org #{org}"
  | flowNotFound flow org => "no active flow " ++ flow.text ++ s!" in org #{org}"
  | flowLoad flow org _ => "error loading flow " ++ flow.text ++ s!" in org #{org}"
  | unknownFlow uuid org => "cannot replace unknown flow " ++ uuid.toString ++ s!" in org #{org}"
  | buildInProgress org => s!"assets of org #{org} are being built"

/-- The failure of a loader that is behind the error. -/
def cause? : AssetError → Option LoadFailure
  | load _ _ cause => some cause
  | flowLoad _ _ cause => some cause
  | _ => none

/-- Whether the error says that there is no such flow. -/
def isNotFound : AssetError → Bool
  | flowNotFound _ _ => true
  | _ => false

end AssetError
end Outreach
