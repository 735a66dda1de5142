import Outreach.Session.Step

/-!
# Outreach.Session.Answer

What a step of a session answers: a reply or a failure, or the answers of the steps of a
transaction.

* `Answer` — steps that ran before loads answer beside the step that caused the loads.
* `Answer.overheard` — an answer with what ran before its own loads, one after the other.
-/

namespace Outreach
namespace Session

/-- How a snapshot shows: which one it is, and which object it holds of each category. -/
structure Shown where
  number : Nat
  org : OrgId
  /-- Nothing if the cache has a clock of its own. -/
  builtAt : Option Instant
  generations : List Nat
  /-- Entries in the cache. -/
  cached : Nat

inductive Reply where
  | done
  | clock (t : Instant)
  | counts (loads : List (Category × Nat))
  | snapshot (s : Shown)
  | numbers (ns : List Nat)
  | cacheSize (entries : Nat) (ttl : Span)
  | flow (f : Flow) (cached : Nat)
  | shelved (f : Option Flow) (cached : Nat)
  | found (p : Part) (f : Found p.Item)
  | index (org : OrgId) (zone : String) (campaigns : List CampaignId) (event : Option Event)
      (relative : List Event)
  | texts (ts : List String)
  | touched (rows : Nat)
  | rows (rs : List FireRow)
  | members (ms : List (ContactId × Option Instant))
  | contacts (cs : List Contact)
  | storedFlow (f : Option Flow)
  | fires (fs : List Fire)
  | tally (t : Tally) (rows pending : Nat)

inductive Failure where
  | noSnapshot
  /-- The tables are out of reach. -/
  | noTables
  | flaw (f : Flaw)
  | assets (e : AssetError)
  | scheduler (e : SchedulerError)
  | refused (c : Cause)
  | unknownTable
  | store (e : StoreError)
  | write (e : WriteError)
  | storedFlow (e : LoadFailure)
deriving DecidableEq

inductive Answer where
  /-- The result, and the answers of all steps that ran before the loads it took, in the order in
  which they ended. -/
  | given (result : Except Failure Reply) (heard : List Answer)
  /-- Loads are caused by the steps of a transaction, never by the transaction itself. -/
  | transaction (answers : List Answer) (committed : Bool)

/-- The answers to hear of a step that runs before a load: what ran before its own loads ended
before it did. -/
def Answer.overheard : Answer → List Answer
  | given result heard => heard ++ [given result []]
  | transaction answers committed => [transaction answers committed]

end Session
end Outreach
