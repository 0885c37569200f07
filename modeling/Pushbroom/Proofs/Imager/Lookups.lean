import Pushbroom.Proofs.Imager.Layout

namespace Pushbroom

/-!
# The questions of an allocation

Sensor by sensor, an allocation asks for a list of bands and for the attributes of every band on
that list, and it fails at the first question that has no answer.  Only then are the indices of
all bands looked at, in increasing order, and the first that is not its position is refused.
This holds of every provider, whatever it answers.
-/

/-- A question about the bands on board. -/
inductive Request where
  /-- Which bands does a sensor have? -/
  | bandList (sensor : Sensor)
  /-- What are the attributes of the band of a number? -/
  | band (number : Nat)

/-- The failure of an allocation whose question is not answered. -/
def Request.failure {α : Type} : Request → Error α
  | .bandList sensor => .missingBandList sensor
  | .band number => .missingBand number

namespace Provider

def unanswered (provider : Provider) : Request → Bool
  | .bandList sensor => (provider.normalBands? sensor).isNone
  | .band number => (provider.band? number).isNone

/-- The numbers listed for a sensor; none when it has no list. -/
def numbers (provider : Provider) (sensor : Sensor) : List Nat :=
  (provider.normalBands? sensor).getD []

/-- The questions about a sensor: its list, and then the bands on it. -/
def requestsFor (provider : Provider) (sensor : Sensor) : List Request :=
  .bandList sensor :: (provider.numbers sensor).map .band

def requests (provider : Provider) : List Request :=
  (Sensor.aboard provider.sensorCount).flatMap provider.requestsFor

/-- The attributes that are known of the bands listed for a sensor. -/
def attributesFor (provider : Provider) (sensor : Sensor) : List BandAttributes :=
  (provider.numbers sensor).filterMap provider.band?

/-- The attributes that are known of the bands on board, as they are listed. -/
def attributes (provider : Provider) : List BandAttributes :=
  (Sensor.aboard provider.sensorCount).flatMap provider.attributesFor

/-- The number of bands on board, each counted as often as it is listed. -/
def listedCount (provider : Provider) : Nat :=
  ((Sensor.aboard provider.sensorCount).map fun sensor => (provider.numbers sensor).length).sum

end Provider

namespace Imager

variable {α : Type}

/-- The first question about a sensor that is not answered. -/
def sensorFault? (provider : Provider) (sensor : Sensor) : Option (Error α) :=
  ((provider.requestsFor sensor).find? provider.unanswered).map Request.failure

/-- The first question that is not answered. -/
def lookupFault? (provider : Provider) : Option (Error α) :=
  (provider.requests.find? provider.unanswered).map Request.failure

/-- Of some indices, put in increasing order, the first that is not its position. -/
def firstMisplaced? (indices : List Nat) : Option Nat :=
  (indices.mergeSort.zipIdx.find? fun entry => entry.1 ≠ entry.2).map Prod.fst

def indexFault? (provider : Provider) : Option (Error α) :=
  (firstMisplaced? (provider.attributes.map BandAttributes.index)).map .bandIndex

/-! ## Answers -/

/-- What is known of some requests, unless one of them has no answer. -/
theorem mapM_require {β γ : Type} (failure : β → Error α) (known? : β → Option γ)
    (requests : List β) :
    (requests.mapM fun request => require (failure request) (known? request)) =
      Failure.outcome ((requests.find? fun request => (known? request).isNone).map failure)
        (requests.filterMap known?) := by
  induction requests with
  | nil => rfl
  | cons request rest ih =>
      rw [List.mapM_cons, ih]
      cases hKnown : known? request with
      | none => simp [require, hKnown, Failure.outcome, bind, Except.bind]
      | some value =>
          rw [List.find?_cons_of_neg (by simp [hKnown]), List.filterMap_cons_some hKnown]
          cases rest.find? fun request => (known? request).isNone <;> rfl

theorem sensorLayout_eq (provider : Provider) (sensor : Sensor) :
    sensorLayout (α := α) provider sensor =
      Failure.outcome (sensorFault? provider sensor) (provider.attributesFor sensor) := by
  unfold sensorLayout sensorFault? Provider.requestsFor Provider.attributesFor Provider.numbers
  cases hList : provider.normalBands? sensor with
  | none =>
      rw [List.find?_cons_of_pos (by simp [Provider.unanswered, hList])]
      rfl
  | some numbers =>
      rw [List.find?_cons_of_neg (by simp [Provider.unanswered, hList]), List.find?_map,
        Option.map_map]
      exact mapM_require Error.missingBand provider.band? numbers

theorem listedLayout_eq (provider : Provider) :
    listedLayout (α := α) provider =
      Failure.outcome (lookupFault? provider) provider.attributes := by
  have hSensors : sensorLayout (α := α) provider = fun sensor =>
      Failure.outcome (sensorFault? provider sensor) (provider.attributesFor sensor) :=
    funext (sensorLayout_eq provider)
  have hFirst : lookupFault? (α := α) provider =
      (Sensor.aboard provider.sensorCount).findSome? (sensorFault? provider) := by
    unfold lookupFault? Provider.requests
    rw [List.find?_flatMap, List.map_findSome?]
    rfl
  unfold listedLayout Provider.attributes
  rw [hSensors, Failure.mapM_outcome, hFirst, List.flatMap_def]
  cases List.findSome? (sensorFault? provider) (Sensor.aboard provider.sensorCount) <;> rfl

theorem lookupFault?_eq_none_iff {provider : Provider} :
    lookupFault? (α := α) provider = none ↔
      ∀ sensor ∈ Sensor.aboard provider.sensorCount, (provider.normalBands? sensor).isSome ∧
        ∀ number ∈ provider.numbers sensor, (provider.band? number).isSome := by
  simp only [lookupFault?, Option.map_eq_none_iff, List.find?_eq_none, Provider.requests,
    List.forall_mem_flatMap, Provider.requestsFor, List.forall_mem_cons, List.forall_mem_map,
    Provider.unanswered, Option.isNone_iff_eq_none, Option.isSome_iff_ne_none, ne_eq]

/-- With all lookups answered, there is an entry for every band listed. -/
theorem length_attributes {provider : Provider}
    (hLookups : lookupFault? (α := α) provider = none) :
    provider.attributes.length = provider.listedCount := by
  rw [Provider.attributes, List.length_flatMap, Provider.listedCount]
  congr 1
  apply List.map_congr_left
  intro sensor hAboard
  exact List.filterMap_length_eq_length.mpr (lookupFault?_eq_none_iff.mp hLookups sensor hAboard).2

/-! ## Indices -/

theorem map_index_misplaced? (position : Nat) (layout : List BandAttributes) :
    (misplaced? position layout).map BandAttributes.index =
      (((layout.map BandAttributes.index).zipIdx position).find?
        fun entry => entry.1 ≠ entry.2).map Prod.fst := by
  induction layout generalizing position with
  | nil => rfl
  | cons band rest ih =>
      rw [misplaced?, List.map_cons, List.zipIdx_cons]
      by_cases hPlaced : band.index = position
      · rw [if_pos hPlaced, ih, List.find?_cons_of_neg (by simp [hPlaced])]
      · rw [if_neg hPlaced, List.find?_cons_of_pos (by simp [hPlaced])]
        rfl

theorem map_index_byIndex (layout : List BandAttributes) :
    (byIndex layout).map BandAttributes.index = (layout.map BandAttributes.index).mergeSort :=
  List.map_mergeSort fun _ _ _ _ => rfl

theorem layout_eq (provider : Provider) :
    layout (α := α) provider =
      Failure.outcome ((lookupFault? provider).or (indexFault? provider))
        (byIndex provider.attributes) := by
  have hIndices : (misplaced? 0 (byIndex provider.attributes)).map BandAttributes.index =
      firstMisplaced? (provider.attributes.map BandAttributes.index) := by
    rw [map_index_misplaced?, map_index_byIndex]
    rfl
  unfold layout
  rw [listedLayout_eq]
  cases lookupFault? (α := α) provider with
  | some error => rfl
  | none =>
      rw [indexFault?, ← hIndices]
      simp only [Failure.outcome, Failure.ok_bind]
      cases misplaced? 0 (byIndex provider.attributes) <;> rfl

/-- Where no check up to that of the indices fails, these are the first natural numbers. -/
theorem index_perm_range {provider : Provider}
    (hLookups : lookupFault? (α := α) provider = none)
    (hIndices : indexFault? (α := α) provider = none) :
    (provider.attributes.map BandAttributes.index).Perm
      (List.range provider.attributes.length) := by
  have hLayout : layout (α := α) provider = .ok (byIndex provider.attributes) := by
    rw [layout_eq, hLookups, hIndices]
    rfl
  obtain ⟨listed, hListed, _, hPerm⟩ := layout_eq_ok_iff.mp hLayout
  rw [listedLayout_eq, hLookups] at hListed
  cases hListed
  exact hPerm

end Imager
end Pushbroom
