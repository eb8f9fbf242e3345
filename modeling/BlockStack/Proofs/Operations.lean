import BlockStack.Proofs.Grouping
import BlockStack.Proofs.Persistence
import Mathlib.Logic.Relation

/-!
# BlockStack.Proofs.Operations

All that a service is ever asked to do, and what holds whatever it was.

* `Operation`, `Service.operateAll`: single reports, batches with any pauses, refreshes and further
  loads, in any order, with any change of the backend between them.
* `Service.Leads`: some moves lead from one state to another. `Service.operateAll_leads`: operations
  are nothing but moves, once the service is loaded.
* `Service.Synced.leads`: the resources that are held stay those that the rows of the document stand
  for.
-/

namespace BlockStack

/-- What a service may be asked to do. -/
inductive Operation where
  | single (occurrence : Occurrence)
  | batch (reports : List Report) (pauses : Pauses)
  | load

namespace Service

/-- The service after an operation. -/
def operate (service : Service) : Operation → Service
  | .single occurrence => service.step occurrence
  | .batch reports pauses => (service.handleAll reports pauses).2
  | .load => service.load.2

/-- The service after some operations. -/
def operateAll (service : Service) (operations : List Operation) : Service :=
  operations.foldl operate service

/-- Some moves lead from one state to another. -/
def Leads : Service → Service → Prop := Relation.ReflTransGen Moves

variable {service next : Service}

theorem Leads.keeps {P : Service → Prop}
    (hkeeps : ∀ {before after : Service}, before.Moves after → P before → P after)
    (h : service.Leads next) (hstart : P service) : P next := by
  induction h with
  | refl => exact hstart
  | tail _ hmoves ih => exact hkeeps hmoves ih

theorem Moves.loaded (h : service.Moves next) (hloaded : service.registry.loaded = true) :
    next.registry.loaded = true := by
  cases h with
  | kept hagrees => rw [hagrees.registry, hloaded]
  | applied happlied => rw [happlied.registry]; exact hloaded
  | refreshed hkeeps => rw [hkeeps.loaded, hloaded]

/-- Reports that are settled one after the other only make moves. -/
theorem TakesIn.leads {order : List Item} {results : List (Nat × Except Fault MergeSummary)}
    (h : service.TakesIn order results next) : service.Leads next := by
  induction h with
  | start hstill => exact .single (.kept hstill.toAgrees)
  | settles _ hsettles ih =>
    rcases hsettles.cases with hagrees | ⟨merged, after, happlied, hagrees⟩
    · exact .tail ih (.kept hagrees)
    · exact .tail (.tail ih (.applied happlied)) (.kept hagrees)
  | still _ hstill ih => exact .tail ih (.kept hstill.toAgrees)

theorem operate_leads (hloaded : service.registry.loaded = true) (operation : Operation) :
    service.Leads (service.operate operation) := by
  cases operation with
  | single occurrence => exact .single (service.step_moves occurrence)
  | batch reports pauses =>
    obtain ⟨order, results, -, htaken, -⟩ := service.handleAll_linear reports pauses
    exact htaken.leads
  | load =>
    have hsame : service.operate .load = service := congrArg Prod.snd (load_loaded hloaded)
    rw [hsame]
    exact .refl

/-- Once a service is loaded, operations are nothing but moves. -/
theorem operateAll_leads {operations : List Operation} : ∀ {service : Service},
    service.registry.loaded = true → service.Leads (service.operateAll operations) := by
  induction operations with
  | nil => exact fun _ => .refl
  | cons operation rest ih =>
    intro service hloaded
    have hfirst := operate_leads hloaded operation
    exact Relation.ReflTransGen.trans hfirst (ih (hfirst.keeps Moves.loaded hloaded))

theorem Synced.leads {doc : Document} (h : service.Synced doc) (hleads : service.Leads next) :
    ∃ doc', next.Synced doc' :=
  hleads.keeps (P := fun state => ∃ doc', state.Synced doc')
    (fun hmoves hsynced => hsynced.elim fun _ h => h.moves hmoves) ⟨doc, h⟩

end Service
end BlockStack
