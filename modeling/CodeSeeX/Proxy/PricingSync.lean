import CodeSeeX.Proxy.ConfigRefresh

/-!
# The prices of the store

The store holds no price list of its own. A task hands it the prices of the configuration in
effect after each change event, so a change that is not announced does not reach it.
-/
namespace CodeSeeX.RuntimeConfig
open Catalog CodexConfig Config Pricing

variable {world : World}

/-! ## The task -/

/-- A price list with the revision of the catalog document that it comes from. -/
structure Prices where
  table : PricingTable
  revision : Text
  deriving DecidableEq

def Prices.of (embedded : CatalogDocument) (config : AppConfig) : Prices where
  table := config.pricingTable embedded
  revision := config.catalogRevision embedded

/-- The task waits for an event, or it has read the prices and not yet set them. -/
inductive SyncTask where
  | waiting
  | setting (prices : Prices)
  deriving DecidableEq

/-- `broadcast::channel(64)` -/
def channelCapacity : ℕ := 64

/-- The service with the store and the task. `pending` counts the events that the channel
keeps for the task, and `lagged` says that it has dropped older ones. `stored` is what
`set_pricing_table` was given last; the store keeps its table. -/
structure Billing where
  world : World
  pending : ℕ
  lagged : Bool
  task : SyncTask
  stored : Prices

inductive BillingAction where
  /-- A file, a settings save or a catalog document. -/
  | config (action : Action)
  /-- `changes.recv().await`, and the prices are read unless events were dropped. -/
  | receive
  /-- `store.set_pricing_table(pricing)` -/
  | set

/-- `CatalogService::activate`: the document is set; the files that it writes too are not read
again by the service. -/
def activate (document : CatalogDocument) : BillingAction :=
  .config (.setCatalogDocument (some document))

/-- `spawn_pricing_sync`: the first prices are set before the task waits. -/
def Billing.start (embedded : CatalogDocument) (world : World) : Billing where
  world := world
  pending := 0
  lagged := false
  task := .waiting
  stored := .of embedded (activeConfig world.service)

/-- The channel after the events that a step of the service sends. -/
def Billing.send (billing : Billing) (world : World) : Billing :=
  let pending := billing.pending + (world.service.sent.length - billing.world.service.sent.length)
  { billing with
    world := world
    pending := min pending channelCapacity
    lagged := billing.lagged || decide (channelCapacity < pending) }

section
variable (process : Process) (embedded : CatalogDocument)

def billingStep (billing : Billing) : BillingAction → Billing
  | .config action => billing.send (step process billing.world action)
  | .receive =>
      match billing.task with
      | .setting _ => billing
      | .waiting =>
          if billing.lagged then { billing with lagged := false }
          else if billing.pending = 0 then billing
          else
            { billing with
              pending := billing.pending - 1
              task := .setting (.of embedded (activeConfig billing.world.service)) }
  | .set =>
      match billing.task with
      | .setting prices => { billing with task := .waiting, stored := prices }
      | .waiting => billing

/-- No event is left undelivered. -/
def Delivered (billing : Billing) : Prop := billing.pending = 0 ∧ billing.task = .waiting

/-- The store has the prices in effect, and they come from the document whose revision is
reported. -/
def InSync (billing : Billing) : Prop :=
  billing.stored.table = (activeConfig billing.world.service).pricingTable embedded ∧
    billing.stored.revision = (activeConfig billing.world.service).catalogRevision embedded

/-! ## The condition -/

/-- A refresh of the prices or of the revision comes with a change that a kind is about, or an
event is still undelivered. A refresh that finds the same signatures changes neither. -/
def Prompt (billing : Billing) : BillingAction → Prop
  | .config action =>
      action.Refreshes billing.world →
        let base := billing.world.service.base
        let applied := billing.world.applied
        let inputs := action.inputs billing.world
        0 < billing.pending ∨
          sameSignatures (snapshotOf process base applied) (snapshotOf process base inputs) = true ∨
          Prices.of embedded (configOf process base applied) =
            Prices.of embedded (configOf process base inputs) ∨
          (DigestsApart process base applied inputs ∧
            announced process base applied ≠ announced process base inputs)
  | _ => True

/-- The prices that the task has read last. -/
def lastRead (billing : Billing) : Prices :=
  match billing.task with
  | .setting prices => prices
  | .waiting => billing.stored

/-- What the task has read last is in effect, or an event makes it read again. -/
structure Follows (billing : Billing) : Prop where
  built : Built process billing.world
  reads : 0 < billing.pending ∨
    lastRead billing = Prices.of embedded (activeConfig billing.world.service)

variable {process embedded}

theorem inSync_of_follows {billing : Billing} (h : Follows process embedded billing)
    (hdelivered : Delivered billing) : InSync embedded billing := by
  obtain ⟨hpending, htask⟩ := hdelivered
  obtain hmore | hread := h.reads
  · omega
  · rw [lastRead, htask] at hread
    exact ⟨congrArg Prices.table hread, congrArg Prices.revision hread⟩

theorem follows_start (h : Built process world) :
    Follows process embedded (.start embedded world) := ⟨h, .inr rfl⟩

theorem activeConfig_of_built (h : Built process world) :
    activeConfig world.service = configOf process world.service.base world.applied :=
  congrArg (·.config) h

/-- A step of the service that sends an event leaves one pending. -/
theorem pending_send {billing : Billing} {change : RuntimeConfigChange}
    (h : world.service.sent = billing.world.service.sent ++ [change]) :
    0 < (billing.send world).pending := by
  have hmore : world.service.sent.length - billing.world.service.sent.length = 1 := by
    rw [h, List.length_append, List.length_singleton]
    omega
  simp only [Billing.send, hmore, channelCapacity]
  omega

theorem pending_send_of_pending {billing : Billing} (world : World) (h : 0 < billing.pending) :
    0 < (billing.send world).pending := by
  simp only [Billing.send, channelCapacity]
  omega

theorem follows_config {billing : Billing} {action : Action}
    (h : Follows process embedded billing)
    (hprompt : Prompt process embedded billing (.config action)) :
    Follows process embedded (billingStep process embedded billing (.config action)) := by
  have hbuilt := built_step billing.world action h.built
  refine ⟨hbuilt, ?_⟩
  by_cases hpending : 0 < billing.pending
  · exact .inl (pending_send_of_pending _ hpending)
  have hread : lastRead billing = Prices.of embedded (activeConfig billing.world.service) := by
    obtain hmore | hread := h.reads
    · exact absurd hmore hpending
    · exact hread
  -- What the task has read stays; the configuration in effect may be another one.
  have hkeeps (heq : Prices.of embedded (activeConfig (step process billing.world action).service) =
      Prices.of embedded (activeConfig billing.world.service)) :
      lastRead (billing.send (step process billing.world action)) =
        Prices.of embedded (activeConfig (step process billing.world action).service) := by
    rw [heq, ← hread]
    rfl
  by_cases hrefreshes : action.Refreshes billing.world
  · obtain ⟨-, ⟨-, hsnapshot, -, -⟩ | ⟨hdiffer, hkinds, hsnapshot, -, -⟩ |
      ⟨-, -, -, ⟨change, hsent⟩, -⟩⟩ := refreshing_cases h.built hrefreshes
    · refine .inr (hkeeps ?_)
      rw [activeConfig, hsnapshot, ← h.built]
      rfl
    · right
      apply hkeeps
      have hactive := activeConfig_of_built h.built
      have hnext : activeConfig (step process billing.world action).service =
          configOf process billing.world.service.base (action.inputs billing.world) := by
        rw [activeConfig, hsnapshot]
        rfl
      obtain hmore | hsame | hprices | ⟨hapart, hannounced⟩ := hprompt hrefreshes
      · exact absurd hmore hpending
      · rw [hsame] at hdiffer
        cases hdiffer
      · rw [hnext, hactive, hprices]
      · exact absurd (announced_of_changedKinds hapart hkinds) hannounced
    · exact .inl (pending_send hsent)
  · obtain ⟨hservice, -⟩ := @step_of_not_refreshes process billing.world action hrefreshes
    exact .inr (hkeeps (by rw [hservice]))

theorem follows_step (billing : Billing) (action : BillingAction)
    (h : Follows process embedded billing) (hprompt : Prompt process embedded billing action) :
    Follows process embedded (billingStep process embedded billing action) := by
  cases action with
  | config action => exact follows_config h hprompt
  | receive =>
    cases htask : billing.task with
    | setting prices => simpa only [billingStep, htask] using h
    | waiting =>
      simp only [billingStep, htask]
      split_ifs
      · obtain ⟨hbuilt, hreads⟩ := h
        refine ⟨hbuilt, ?_⟩
        simpa only [lastRead, htask] using hreads
      · exact h
      · exact ⟨h.built, .inr rfl⟩
  | set =>
    cases htask : billing.task with
    | waiting => simpa only [billingStep, htask] using h
    | setting prices =>
      obtain ⟨hbuilt, hreads⟩ := h
      simp only [billingStep, htask]
      refine ⟨hbuilt, ?_⟩
      simpa only [lastRead, htask] using hreads

end

/-! ## Every run -/

/-- In a run whose refreshes are all prompt the store has the prices in effect whenever no event
is left undelivered. The task starts after `earlier`. -/
theorem prices_in_sync (process : Process) (embedded : CatalogDocument) (base : AppConfig)
    (files : Files) (earlier : List Action) (actions : List BillingAction)
    (h : Runs.Along (billingStep process embedded) (Prompt process embedded)
      (.start embedded (Runs.run (step process) (World.start process base files) earlier)) actions) :
    let reached := Runs.run (billingStep process embedded)
      (.start embedded (Runs.run (step process) (World.start process base files) earlier)) actions
    Delivered reached → InSync embedded reached := by
  have hbuilt : Built process (Runs.run (step process) (World.start process base files) earlier) :=
    Runs.invariant_run (fun world action hbuilt _ => built_step world action hbuilt)
      (built_start base files) (Runs.along_true earlier _)
  exact inSync_of_follows (Runs.invariant_run follows_step (follows_start hbuilt) h)

namespace OneSetting

/-- A newer document with a price list of its own. -/
def pricedDocument : CatalogDocument :=
  { ghostDocument with
    revision := "2"
    pricing := { PricingTable.default with
      revision := "2", rates := [("a", ⟨1, 2, 3⟩)] } }

/-- The document arrives while the event of a new file is on its way to the task. -/
def overtaken : List BillingAction :=
  [.config (.write (filesWith (.text strictTemperature))), .config (.refresh .configFile),
    activate pricedDocument, .receive, .set]

def syncStarted : Billing := .start ghostDocument
  (Runs.run (step process) (World.start process base (filesWith .missing)) [])

def billing (actions : List BillingAction) : Billing :=
  Runs.run (billingStep process ghostDocument) syncStarted actions

end OneSetting

open OneSetting in
theorem prompt_overtaken : Runs.Along (billingStep process ghostDocument)
    (Prompt process ghostDocument) syncStarted overtaken := by
  refine ⟨fun h => h.elim, ?_, ?_, trivial, trivial, trivial⟩
  · intro _
    exact .inr (.inr (.inr ⟨digestsApart_strict, announced_strict⟩))
  · intro _
    exact .inl (by decide +kernel)

open OneSetting in
theorem prices_in_sync_overtaken : Delivered (billing overtaken) ∧
    InSync ghostDocument (billing overtaken) := by
  have hdelivered : Delivered (billing overtaken) := ⟨by decide +kernel, by decide +kernel⟩
  have hsync := prices_in_sync process ghostDocument base (filesWith .missing) []
    overtaken prompt_overtaken
  exact ⟨hdelivered, hsync hdelivered⟩

open OneSetting in
/-- A new document alone leaves the old prices in the store. -/
theorem document_not_priced : Delivered (billing [activate pricedDocument]) ∧
    ¬ InSync ghostDocument (billing [activate pricedDocument]) := by
  refine ⟨⟨by decide +kernel, by decide +kernel⟩, ?_⟩
  intro h
  exact absurd h.1 (by decide +kernel)

end CodeSeeX.RuntimeConfig
