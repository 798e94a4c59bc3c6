import CodeZard.Amounts

namespace CodeZard.Products

open Amounts

/-- A moment in UTC, in microseconds since the epoch: what a `datetime` can tell apart. -/
abbrev Datetime := Int

def SECOND : Int := 1000000

def MINUTE : Int := 60 * SECOND

def DAY : Int := 24 * 60 * MINUTE

def WEEK : Int := 7 * DAY

def MONTH : Int := 30 * DAY

inductive Cadence
  | weekly
  | monthly
  | oneOff
  deriving DecidableEq, Repr

def Cadence.value : Cadence → String
  | .weekly => "weekly"
  | .monthly => "monthly"
  | .oneOff => "one_off"

structure Plan where
  id : String
  name : String
  price : Money
  tokens : Int
  cadence : Cadence := .monthly
  deriving DecidableEq, Repr

def Plan.period (p : Plan) : Int :=
  match p.cadence with
  | .weekly => WEEK
  | .monthly => MONTH
  | .oneOff => MONTH

def Plan.isFree (p : Plan) : Bool := p.price.isZero

theorem Plan.period_pos (p : Plan) : 0 < p.period := by
  unfold Plan.period
  cases p.cadence <;> decide

structure Pack where
  id : String
  name : String
  price : Money
  tokens : Int
  deriving DecidableEq, Repr

inductive Product
  | plan (p : Plan)
  | pack (p : Pack)
  deriving DecidableEq, Repr

namespace Product

def id : Product → String
  | .plan p => p.id
  | .pack p => p.id

def name : Product → String
  | .plan p => p.name
  | .pack p => p.name

def price : Product → Money
  | .plan p => p.price
  | .pack p => p.price

def tokens : Product → Int
  | .plan p => p.tokens
  | .pack p => p.tokens

end Product

structure Catalog where
  plans : List Plan := []
  packs : List Pack := []
  pricing : Pricing := {}
  deriving DecidableEq, Repr

namespace Catalog

def everything (c : Catalog) : List Product := c.plans.map .plan ++ c.packs.map .pack

def product (c : Catalog) (sku : String) : Except Error Product :=
  match c.everything.find? (fun p => p.id = sku) with
  | some p => .ok p
  | none => .error (.unknownProduct sku)

def plan (c : Catalog) (planId : String) : Except Error Plan :=
  match c.product planId with
  | .ok (.plan p) => .ok p
  | .ok (.pack _) => .error (.unknownProduct planId)
  | .error e => .error e

/-- The plan every account starts on. -/
def freePlan (c : Catalog) : Option Plan := c.plans.find? (fun p => p.isFree)

theorem product_id {c : Catalog} {sku : String} {p : Product} (h : c.product sku = .ok p) : p.id = sku := by
  unfold product at h
  split at h
  · cases h
    rename_i hf
    have hs := List.find?_some hf
    exact of_decide_eq_true hs
  · cases h

theorem plan_of_product {c : Catalog} {sku : String} {p : Plan} (h : c.product sku = .ok (.plan p)) :
    c.plan sku = .ok p := by
  simp [plan, h]

theorem product_of_plan {c : Catalog} {sku : String} {p : Plan} (h : c.plan sku = .ok p) :
    c.product sku = .ok (.plan p) := by
  unfold plan at h
  split at h
  · cases h; assumption
  · cases h
  · cases h

theorem plan_id {c : Catalog} {sku : String} {p : Plan} (h : c.plan sku = .ok p) : p.id = sku :=
  product_id (product_of_plan h)

theorem find_unique {α : Type} {p q : α → Bool} {l : List α} {a b : α} (ha : l.find? p = some a)
    (hb : l.find? q = some b) (hpb : p b = true) (hqa : q a = true) : a = b := by
  induction l with
  | nil => cases ha
  | cons x xs ih =>
      rw [List.find?_cons] at ha hb
      cases hp : p x <;> cases hq : q x <;> simp_all

theorem find_of_mem {c : Catalog} {plan : Plan} (h : plan ∈ c.plans) :
    ∃ p, c.plan plan.id = .ok p ∧ c.plans.find? (fun x => x.id = plan.id) = some p := by
  cases hs : c.plans.find? (fun x => x.id = plan.id) with
  | none => exact absurd (decide_eq_true rfl) (List.find?_eq_none.1 hs plan h)
  | some p =>
      have hfind : c.everything.find? (fun x => x.id = plan.id) = some (.plan p) := by
        have hmap : c.plans.find? ((fun x => decide (Product.id x = plan.id)) ∘ Product.plan) = some p := hs
        rw [everything, List.find?_append, List.find?_map, hmap]
        rfl
      exact ⟨p, plan_of_product (by rw [product, hfind]), rfl⟩

theorem freePlan_unique {c : Catalog} {plan p : Plan} (hf : c.freePlan = some plan)
    (hp : c.plan plan.id = .ok p) (hfree : p.isFree = true) : p = plan := by
  obtain ⟨q, hq, hfind⟩ := find_of_mem (List.mem_of_find?_eq_some hf)
  rw [hp] at hq
  cases hq
  exact find_unique hfind hf (by simp) hfree

end Catalog

def FREE_PLAN_ID : String := "free"

def FREE_WEEKLY_VALUE : Money := .usd 5

def defaultCatalog (pricing : Pricing := {}) : Catalog where
  pricing := pricing
  plans := [
    ⟨FREE_PLAN_ID, "Free", {}, pricing.tokensFor FREE_WEEKLY_VALUE, .weekly⟩,
    ⟨"starter", "Starter", .usd 19, 4000000, .monthly⟩,
    ⟨"builder", "Builder", .usd 49, 12000000, .monthly⟩,
    ⟨"studio", "Studio", .usd 149, 40000000, .monthly⟩]
  packs := [
    ⟨"tokens-1m", "1M tokens", .usd 8, 1000000⟩,
    ⟨"tokens-5m", "5M tokens", .usd 35, 5000000⟩,
    ⟨"tokens-20m", "20M tokens", .usd 120, 20000000⟩]

end CodeZard.Products
