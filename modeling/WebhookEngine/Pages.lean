import WebhookEngine.Listings
import WebhookEngine.Queries
import WebhookEngine.Steps

/-! The pages of the three listings. Each is a query of its own, ordered by the moment of
creation alone. -/

namespace WebhookEngine

open Relational Listings

structure ListedTenant where
  id : Nat
  row : Tenant
  createdAt : Time
  deriving DecidableEq, Repr

/-- The column `createdAt` of the tenants is given beside their rows. -/
def PrismaTenantsRepository.findAll (createdAt : Nat → Time) (db : Database) (query : Paging)
    (answer : Page ListedTenant) : Prop :=
  ∃ rows, rows.Perm (db.tenants.select fun _ t => t.isActive) ∧
    (rows.Pairwise fun a b => createdAt b.1 ≤ createdAt a.1) ∧
    answer = ⟨(query.cut rows).map fun p => ⟨p.1, p.2, createdAt p.1⟩,
      query.pagination (db.tenants.select fun _ t => t.isActive).length⟩

section Partition

variable {α ρ : Type}

/-- The pages of the limit hold the matching entries once, in whatever way each is answered;
a next page is promised just when a later one is not empty; and no entry comes after the last. -/
structure PagesPartition (limit : Nat) (find : Paging → Page α → Prop) (entry : α → Nat × ρ)
    (matching : List (Nat × ρ)) : Prop where
  complete : ∀ answers : Nat → Page α,
    (∀ k (paging : Paging), paging.page = k + 1 → paging.limit = limit → find paging (answers k)) →
    ((List.range (answers 0).pagination.totalPages).flatMap fun k => (answers k).items.map entry).Perm matching
  hasNext : ∀ paging answer, paging.limit = limit → find paging answer →
    (answer.pagination.hasNext = true ↔ ∃ later answer', later.limit = limit ∧ paging.page < later.page ∧
      find later answer' ∧ answer'.items ≠ [])
  beyond : ∀ paging answer, paging.limit = limit → find paging answer →
    answer.pagination.totalPages < paging.page → answer.items = []

/-- One query for a page of the rows, and one for their number. -/
def Finds (key : Nat × ρ → Time) (item : Nat × ρ → Option α) (rows : List (Nat × ρ)) (paging : Paging)
    (answer : Page α) : Prop :=
  ∃ s, Listing key rows s ∧ answer = ⟨(paging.cut s).filterMap item, paging.pagination rows.length⟩

variable {key : Nat × ρ → Time} {item : Nat × ρ → Option α} {rows s : List (Nat × ρ)} {entry : α → Nat × ρ}
  {paging : Paging} {answer : Page α} {limit k : Nat}

theorem Paging.cut_eq_page (hpage : paging.page = k + 1) (hlimit : paging.limit = limit) :
    paging.cut s = Listings.page limit k s := by
  rw [Paging.cut, hpage, hlimit, Nat.add_sub_cancel, Listings.page]

theorem le_totalPages_mul (hlimit : 0 < limit) (total : Nat) : total ≤ (total + limit - 1) / limit * limit := by
  have hmod := Nat.div_add_mod (total + limit - 1) limit
  have hlt := Nat.mod_lt (total + limit - 1) hlimit
  rw [Nat.mul_comm] at hmod
  omega

/-- Every row has its item, which keeps the row. -/
def Itemizes (item : Nat × ρ → Option α) (entry : α → Nat × ρ) (rows : List (Nat × ρ)) : Prop :=
  ∀ p ∈ rows, (item p).map entry = some p

theorem Itemizes.map_filterMap (h : Itemizes item entry rows) {l : List (Nat × ρ)} (hl : l ⊆ rows) :
    (l.filterMap item).map entry = l := by
  rw [List.map_filterMap]
  have hsome : ∀ p ∈ l, (item p).map entry = some p := fun p hp => h p (hl hp)
  rw [List.filterMap_congr hsome, List.filterMap_some]

theorem Itemizes.filterMap_eq_nil (h : Itemizes item entry rows) {l : List (Nat × ρ)} (hl : l ⊆ rows) :
    l.filterMap item = [] ↔ l = [] := by
  rw [← List.map_eq_nil_iff (f := entry), h.map_filterMap hl]

theorem Paging.cut_eq_nil : paging.cut s = [] ↔ s.length ≤ (paging.page - 1) * paging.limit := by
  rw [Paging.cut, List.take_eq_nil_iff, List.drop_eq_nil_iff]
  have hpos := paging.limit_pos
  omega

namespace Finds

theorem items_eq_nil (hitems : Itemizes item entry rows) (h : Finds key item rows paging answer) :
    answer.items = [] ↔ rows.length ≤ (paging.page - 1) * paging.limit := by
  obtain ⟨s, hs, rfl⟩ := h
  have hsub : paging.cut s ⊆ rows := List.Subset.trans (paging.cut_subset s) hs.perm.subset
  rw [hitems.filterMap_eq_nil hsub, Paging.cut_eq_nil, hs.perm.length_eq]

theorem hasNext (hitems : Itemizes item entry rows) (h : Finds key item rows paging answer) :
    answer.pagination.hasNext = true ↔ ∃ later answer', later.limit = paging.limit ∧ paging.page < later.page ∧
      Finds key item rows later answer' ∧ answer'.items ≠ [] := by
  have hpagination : answer.pagination = paging.pagination rows.length := by
    obtain ⟨s, _, rfl⟩ := h
    rfl
  rw [hpagination, Paging.pagination, decide_eq_true_eq]
  constructor
  · intro hlt
    obtain ⟨s, hs⟩ := exists_listing key rows
    let later : Paging := ⟨paging.page + 1, paging.limit, Nat.succ_pos _, paging.limit_pos⟩
    have hfinds : Finds key item rows later ⟨(later.cut s).filterMap item, later.pagination rows.length⟩ :=
      ⟨s, hs, rfl⟩
    refine ⟨later, _, rfl, Nat.lt_succ_self _, hfinds, fun hnil => ?_⟩
    have hle := (items_eq_nil hitems hfinds).mp hnil
    exact absurd hlt (not_lt.mpr hle)
  · rintro ⟨later, answer', hlimit, hlater, hfinds, hne⟩
    rw [Ne, items_eq_nil hitems hfinds, not_le, hlimit] at hne
    exact (Nat.mul_le_mul_right _ (Nat.le_sub_one_of_lt hlater)).trans_lt hne

theorem items_entry (hitems : Itemizes item entry rows) (hs : Listing key rows s) (hpage : paging.page = k + 1)
    (hlimit : paging.limit = limit) : ((paging.cut s).filterMap item).map entry = Listings.page limit k s := by
  have hsub : paging.cut s ⊆ rows := List.Subset.trans (paging.cut_subset s) hs.perm.subset
  rw [hitems.map_filterMap hsub, Paging.cut_eq_page hpage hlimit]

/-- The pages partition the rows just when no page ends between rows of one key. -/
theorem partition_iff (hlimit : 0 < limit) (hitems : Itemizes item entry rows) (hnodup : rows.Nodup) :
    PagesPartition limit (Finds key item rows) entry rows ↔ ∀ k, ¬ SplitsTie key rows (k * limit) := by
  have htotal := le_totalPages_mul hlimit rows.length
  rw [← pages_perm_iff hlimit hnodup htotal]
  constructor
  · intro h listings hlistings
    let answers : Nat → Page α := fun k =>
      ⟨((Paging.mk (k + 1) limit (Nat.succ_pos k) hlimit).cut (listings k)).filterMap item,
        (Paging.mk (k + 1) limit (Nat.succ_pos k) hlimit).pagination rows.length⟩
    have hfinds : ∀ k (paging : Paging), paging.page = k + 1 → paging.limit = limit →
        Finds key item rows paging (answers k) := by
      rintro k ⟨_, _, _, _⟩ rfl rfl
      exact ⟨listings k, hlistings k, rfl⟩
    have hcomplete := h.complete answers hfinds
    have hentries (k : Nat) : (answers k).items.map entry = Listings.page limit k (listings k) :=
      items_entry hitems (hlistings k) rfl rfl
    simp only [hentries] at hcomplete
    exact hcomplete
  · intro h
    constructor
    · intro answers hanswers
      have hlisted (k : Nat) := hanswers k ⟨k + 1, limit, Nat.succ_pos k, hlimit⟩ rfl rfl
      choose listings hlistings hanswer using hlisted
      have hentries (k : Nat) : (answers k).items.map entry = Listings.page limit k (listings k) := by
        rw [hanswer k]
        exact items_entry hitems (hlistings k) rfl rfl
      have hpages : (answers 0).pagination.totalPages = (rows.length + limit - 1) / limit := by
        rw [hanswer 0]
        rfl
      rw [hpages]
      simp only [hentries]
      exact h listings hlistings
    · rintro paging answer rfl hfinds
      exact hfinds.hasNext hitems
    · rintro paging answer rfl hfinds hbeyond
      have hpages : answer.pagination.totalPages = (rows.length + paging.limit - 1) / paging.limit := by
        obtain ⟨s, _, rfl⟩ := hfinds
        rfl
      rw [hpages] at hbeyond
      rw [hfinds.items_eq_nil hitems]
      exact htotal.trans (Nat.mul_le_mul_right _ (Nat.le_sub_one_of_lt hbeyond))

theorem partition_iff_of {find : Paging → Page α → Prop}
    (hfind : ∀ paging answer, find paging answer ↔ Finds key item rows paging answer) (hlimit : 0 < limit)
    (hitems : Itemizes item entry rows) (hnodup : rows.Nodup) :
    PagesPartition limit find entry rows ↔ ∀ k, ¬ SplitsTie key rows (k * limit) := by
  have heq : find = Finds key item rows := by
    funext paging answer
    exact propext (hfind paging answer)
  rw [heq]
  exact partition_iff hlimit hitems hnodup

end Finds

end Partition

section Listings

variable {db : Database} {createdAt : Nat → Time} {limit tenantId : Nat}

theorem select_nodup {ρ : Type} (t : Table ρ) (p : Nat → ρ → Bool) : (t.select p).Nodup :=
  (t.select_ids_nodup p).of_map

def EventListQuery.rows (query : EventListQuery) (db : Database) (tenantId : Nat) : List (Nat × WebhookEvent) :=
  db.events.select fun _ e => query.accepts tenantId e

def DeliveryListQuery.rows (query : DeliveryListQuery) (db : Database) (tenantId : Nat) : List (Nat × Delivery) :=
  db.deliveries.select fun _ r => query.accepts db tenantId r

def Database.activeTenants (db : Database) : List (Nat × Tenant) := db.tenants.select fun _ t => t.isActive

theorem EventListQuery.finds_iff (query : EventListQuery) {paging : Paging} {answer : Page EventItem} :
    PrismaEventsRepository.findAll db tenantId { query with paging } answer ↔
      Finds (fun p => p.2.createdAt) (fun p => PrismaEventsRepository.item db p.1 p.2) (query.rows db tenantId) paging
        answer := by
  simp only [PrismaEventsRepository.findAll, Finds, listing_iff, Table.Ordered]
  rfl

theorem DeliveryListQuery.finds_iff (query : DeliveryListQuery) {paging : Paging} {answer : Page DeliveryItem} :
    PrismaDeliveriesRepository.findAll db tenantId { query with paging } answer ↔
      Finds (fun p => p.2.createdAt) (fun p => PrismaDeliveriesRepository.item db p.1 p.2) (query.rows db tenantId)
        paging answer := by
  simp only [PrismaDeliveriesRepository.findAll, Finds, listing_iff, Table.Ordered]
  rfl

theorem PrismaTenantsRepository.finds_iff {paging : Paging} {answer : Page ListedTenant} :
    PrismaTenantsRepository.findAll createdAt db paging answer ↔
      Finds (fun p => createdAt p.1) (fun p => some (ListedTenant.mk p.1 p.2 (createdAt p.1))) db.activeTenants paging
        answer := by
  simp only [PrismaTenantsRepository.findAll, Finds, listing_iff, List.filterMap_eq_map', and_assoc]
  rfl

theorem EventListQuery.itemizes (hl : db.Linked) (query : EventListQuery) :
    Itemizes (fun p => PrismaEventsRepository.item db p.1 p.2) (fun item => (item.id, item.row))
      (query.rows db tenantId) := by
  intro p hp
  have htenant := hl.tenant p.1 p.2 (Table.mem_select.mp hp).1
  obtain ⟨tenant, htenant⟩ := Option.isSome_iff_exists.mp htenant
  simp only [PrismaEventsRepository.item, Database.tenantRef, htenant, Option.map_some]

theorem DeliveryListQuery.itemizes (hl : db.Linked) (query : DeliveryListQuery) :
    Itemizes (fun p => PrismaDeliveriesRepository.item db p.1 p.2) (fun item => (item.id, item.row))
      (query.rows db tenantId) := by
  intro p hp
  have hrow := (Table.mem_select.mp hp).1
  obtain ⟨event, hevent⟩ := Option.isSome_iff_exists.mp (hl.event p.1 p.2 hrow)
  obtain ⟨tenant, htenant⟩ := Option.isSome_iff_exists.mp (hl.tenant _ event hevent)
  obtain ⟨endpoint, hendpoint⟩ := Option.isSome_iff_exists.mp (hl.endpoint p.1 p.2 hrow)
  simp [PrismaDeliveriesRepository.item, Database.tenantRef, Database.endpointRef, hevent, htenant, hendpoint]

theorem PrismaTenantsRepository.itemizes :
    Itemizes (fun p => some (ListedTenant.mk p.1 p.2 (createdAt p.1))) (fun item => (item.id, item.row))
      db.activeTenants :=
  fun _ _ => rfl

/-- The pages of the limit partition the events, the deliveries and the tenants. -/
structure ListingsPartition (createdAt : Nat → Time) (db : Database) (limit : Nat) : Prop where
  events : ∀ tenantId (query : EventListQuery), PagesPartition limit
    (fun paging => PrismaEventsRepository.findAll db tenantId { query with paging }) (fun item => (item.id, item.row))
    (query.rows db tenantId)
  deliveries : ∀ tenantId (query : DeliveryListQuery), PagesPartition limit
    (fun paging => PrismaDeliveriesRepository.findAll db tenantId { query with paging })
    (fun item => (item.id, item.row)) (query.rows db tenantId)
  tenants : PagesPartition limit (PrismaTenantsRepository.findAll createdAt db) (fun item => (item.id, item.row))
    db.activeTenants

theorem EventListQuery.partition_iff (hl : db.Linked) (hlimit : 0 < limit) (query : EventListQuery) :
    PagesPartition limit (fun paging => PrismaEventsRepository.findAll db tenantId { query with paging })
        (fun item => (item.id, item.row)) (query.rows db tenantId) ↔
      ∀ k, ¬ SplitsTie (fun p => p.2.createdAt) (query.rows db tenantId) (k * limit) := by
  have hnodup : (query.rows db tenantId).Nodup := select_nodup _ _
  exact Finds.partition_iff_of (fun _ _ => query.finds_iff) hlimit (query.itemizes hl) hnodup

theorem DeliveryListQuery.partition_iff (hl : db.Linked) (hlimit : 0 < limit) (query : DeliveryListQuery) :
    PagesPartition limit (fun paging => PrismaDeliveriesRepository.findAll db tenantId { query with paging })
        (fun item => (item.id, item.row)) (query.rows db tenantId) ↔
      ∀ k, ¬ SplitsTie (fun p => p.2.createdAt) (query.rows db tenantId) (k * limit) := by
  have hnodup : (query.rows db tenantId).Nodup := select_nodup _ _
  exact Finds.partition_iff_of (fun _ _ => query.finds_iff) hlimit (query.itemizes hl) hnodup

theorem PrismaTenantsRepository.partition_iff (hlimit : 0 < limit) :
    PagesPartition limit (PrismaTenantsRepository.findAll createdAt db) (fun item => (item.id, item.row))
        db.activeTenants ↔
      ∀ k, ¬ SplitsTie (fun p => createdAt p.1) db.activeTenants (k * limit) := by
  have hnodup : db.activeTenants.Nodup := select_nodup _ _
  exact Finds.partition_iff_of (fun _ _ => finds_iff) hlimit itemizes hnodup

end Listings

/-- A listing is partitioned by its pages just when no page ends between rows of one moment. -/
theorem pages_partition_iff (createdAt : Nat → Time) (db : Database) (limit : Nat) (hl : db.Linked)
    (hlimit : 0 < limit) :
    (∀ tenantId (query : EventListQuery),
      PagesPartition limit (fun paging => PrismaEventsRepository.findAll db tenantId { query with paging })
          (fun item => (item.id, item.row)) (query.rows db tenantId) ↔
        ∀ k, ¬ SplitsTie (fun p => p.2.createdAt) (query.rows db tenantId) (k * limit)) ∧
    (∀ tenantId (query : DeliveryListQuery),
      PagesPartition limit (fun paging => PrismaDeliveriesRepository.findAll db tenantId { query with paging })
          (fun item => (item.id, item.row)) (query.rows db tenantId) ↔
        ∀ k, ¬ SplitsTie (fun p => p.2.createdAt) (query.rows db tenantId) (k * limit)) ∧
    (PagesPartition limit (PrismaTenantsRepository.findAll createdAt db) (fun item => (item.id, item.row))
        db.activeTenants ↔
      ∀ k, ¬ SplitsTie (fun p => createdAt p.1) db.activeTenants (k * limit)) :=
  ⟨fun _ query => query.partition_iff hl hlimit, fun _ query => query.partition_iff hl hlimit,
    PrismaTenantsRepository.partition_iff hlimit⟩

/-- One event for two endpoints. -/
def paired : Database :=
  ((System.boot (.subscribed 2)).db.createForTenant 0 ⟨0, "key", "order.created", "{}"⟩ [0, 1]).getD
    (System.boot (.subscribed 2)).db

theorem paired_linked : paired.Linked := by
  have hboot := System.boot_linked (.subscribed 2)
  rw [paired]
  cases h : (System.boot (.subscribed 2)).db.createForTenant 0 ⟨0, "key", "order.created", "{}"⟩ [0, 1] with
  | none => exact hboot
  | some db => exact hboot.createForTenant h

/-- Every delivery of the tenant. -/
def DeliveryListQuery.all (paging : Paging) : DeliveryListQuery where
  status := none
  eventId := none
  endpointId := none
  after := none
  before := none
  paging := paging

theorem pages_partition_iff_paired :
    PagesPartition 1 (fun paging => PrismaDeliveriesRepository.findAll paired 0 (.all paging))
        (fun item => (item.id, item.row)) ((DeliveryListQuery.all ⟨1, 1, by decide, by decide⟩).rows paired 0) ↔
      ∀ k, ¬ SplitsTie (fun p => p.2.createdAt)
        ((DeliveryListQuery.all ⟨1, 1, by decide, by decide⟩).rows paired 0) (k * 1) :=
  (pages_partition_iff (fun _ => 0) paired 1 paired_linked Nat.one_pos).2.1 0 (.all ⟨1, 1, by decide, by decide⟩)

/-- The two deliveries of one event are created together, and a page holds one of them. -/
theorem pages_repeat : ¬ ∀ (createdAt : Nat → Time) (db : Database) (limit : Nat), db.Linked → 0 < limit →
    ListingsPartition createdAt db limit := by
  intro h
  let query : DeliveryListQuery := .all ⟨1, 1, by decide, by decide⟩
  have hpartition := (h (fun _ => 0) paired 1 paired_linked Nat.one_pos).deliveries 0 query
  have hties := (query.partition_iff paired_linked Nat.one_pos).mp hpartition 1
  exact hties (by decide +kernel)

end WebhookEngine
