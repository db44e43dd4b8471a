import Bibdata.JsonValue
import Bibdata.Library.Unrestored
import Bibdata.Marc

/-!
# The tables of locations

The rows of three tables are deleted, and then created again from three files, record by record.
There is no transaction around it. A record that is not valid is passed over, and what raises is
what Ruby, the parser or the database raises.
-/

namespace Bibdata

structure LibraryRow where
  id : ℤ
  label : Option String
  code : Option String
  order : Option ℤ
  deriving DecidableEq

structure DeliveryLocationRow where
  id : ℤ
  label : Option String
  address : Option String
  phoneNumber : Option String
  contactEmail : Option String
  staffOnly : Bool
  locationsLibraryId : ℤ
  gfaPickup : Option String
  pickupLocation : Bool
  digitalLocation : Bool
  deriving DecidableEq

structure HoldingLocationRow where
  id : ℤ
  label : Option String
  code : Option String
  aeonLocation : Option Bool
  recapElectronicDeliveryLocation : Option Bool
  «open» : Option Bool
  requestable : Option Bool
  alwaysRequestable : Option Bool
  circulates : Option Bool
  remoteStorage : Option String
  fulfillmentUnit : Option String
  locationsLibraryId : ℤ
  holdingLibraryId : Option ℤ
  deriving DecidableEq

structure LocationRows where
  libraries : List LibraryRow := []
  deliveryLocations : List DeliveryLocationRow := []
  holdingLocations : List HoldingLocationRow := []
  deriving DecidableEq

/-- The tables, which delivery locations each holding location has, and the sequences. -/
structure LocationDb extends LocationRows where
  holdingsDelivery : List (ℤ × ℤ) := []
  nextLibraryId : ℤ := 1
  nextDeliveryLocationId : ℤ := 1
  nextHoldingLocationId : ℤ := 1
  deriving DecidableEq

/-- Ruby's sorting of ids, the casts of ActiveRecord, and what the database refuses. -/
structure LocationPackages (N : Type) where
  parse : String → Option (JsonValue N)
  /-- The last of at least one id in their order, where they can be compared. -/
  highest : JsonValue N → List (JsonValue N) → Option (JsonValue N)
  /-- The sequence with the number after this one. -/
  restartAfter : N → Option ℤ
  castString : JsonValue N → Option String
  castInteger : JsonValue N → Option (Option ℤ)
  castBoolean : JsonValue N → Option Bool
  /-- `Library.find_by(code:)`. -/
  findByCode : (rows : List LibraryRow) → JsonValue N → Option (Option {row // row ∈ rows})
  refusesLibrary : LibraryRow → Bool
  refusesDeliveryLocation : DeliveryLocationRow → Bool
  refusesHoldingLocation : HoldingLocationRow → Bool

/-- The text of each file, where there is one. -/
structure LocationFiles where
  libraries : Option String
  deliveryLocations : Option String
  holdingLocations : Option String

namespace LocationDataService

variable {N : Type} (env : LocationPackages N) (files : LocationFiles)

/-- The file is read and parsed, and its records are gone through. -/
def records (file : Option String) : Option (List (JsonValue N)) :=
  (file.bind env.parse).bind JsonValue.each

section Libraries

def createLibrary (library : JsonValue N) : Unrestored LocationDb Unit := .step fun db => do
  let label ← library.index "label"
  let code ← library.index "code"
  let order ← library.index "order"
  let label := env.castString label
  let code := env.castString code
  if present label && present code && db.libraries.all (·.code ≠ code) then
    let order ← env.castInteger order
    let row : LibraryRow := ⟨db.nextLibraryId, label, code, order⟩
    if env.refusesLibrary row || db.libraries.any (·.id = row.id) then none
    else
      some ((), { db with
        libraries := db.libraries ++ [row]
        nextLibraryId := db.nextLibraryId + 1 })
  else some ((), db)

def populateLibraries : Unrestored LocationDb Unit := do
  let libraries ← .value (records env files.libraries)
  .each (createLibrary env) libraries

end Libraries

section DeliveryLocations

/-- `highest_id + 1`, as the sequence takes it. -/
def highestId (deliveryLocations : List (JsonValue N)) : Option ℤ := do
  let ids ← deliveryLocations.mapM (·.index "id")
  match ids with
  | [] => none
  | id :: ids =>
    match ← env.highest id ids with
    | .number n => env.restartAfter n
    | _ => none

def createDeliveryLocation (deliveryLocation : JsonValue N) : Unrestored LocationDb Unit :=
  .step fun db => do
    let code ← (← deliveryLocation.index "library").index "code"
    let library ← (← env.findByCode db.libraries code)
    let id ← deliveryLocation.index "id"
    let label := env.castString (← deliveryLocation.index "label")
    let address := env.castString (← deliveryLocation.index "address")
    let phoneNumber := env.castString (← deliveryLocation.index "phone_number")
    let contactEmail := env.castString (← deliveryLocation.index "contact_email")
    let staffOnly := env.castBoolean (← deliveryLocation.index "staff_only")
    let gfaPickup := env.castString (← deliveryLocation.index "gfa_pickup")
    let pickupLocation := env.castBoolean (← deliveryLocation.index "pickup_location")
    let digitalLocation := env.castBoolean (← deliveryLocation.index "digital_location")
    if [label, address, phoneNumber, contactEmail, gfaPickup].all present then
      let id ← env.castInteger id
      let row : DeliveryLocationRow :=
        { id := id.getD db.nextDeliveryLocationId, label, address, phoneNumber, contactEmail,
          staffOnly := staffOnly.getD false, locationsLibraryId := library.val.id, gfaPickup,
          pickupLocation := pickupLocation.getD false,
          digitalLocation := digitalLocation.getD false }
      if env.refusesDeliveryLocation row || db.deliveryLocations.any (·.id = row.id) then none
      else
        some ((), { db with
          deliveryLocations := db.deliveryLocations ++ [row]
          nextDeliveryLocationId :=
            if id = none then db.nextDeliveryLocationId + 1 else db.nextDeliveryLocationId })
    else some ((), db)

def populateDeliveryLocations : Unrestored LocationDb Unit := do
  let deliveryLocations ← .value (records env files.deliveryLocations)
  let highest ← .value (highestId env deliveryLocations)
  .change fun db => { db with nextDeliveryLocationId := highest }
  .each (createDeliveryLocation env) deliveryLocations

end DeliveryLocations

section HoldingLocations

def libraryId (db : LocationDb) (holdingLibraryCode : JsonValue N) : Option (Option ℤ) :=
  if holdingLibraryCode.truthy then
    (env.findByCode db.libraries holdingLibraryCode).map fun library => library.map (·.val.id)
  else some none

/-- `{}` is cast to no id. -/
def idOfLibrary (db : LocationDb) (library : JsonValue N) : Option (Option ℤ) :=
  if library.truthy then (library.index "code").bind (libraryId env db) else some none

def hasGfaPickup (row : DeliveryLocationRow) (d : JsonValue N) : Bool :=
  match row.gfaPickup, d with
  | some pickup, .string s => pickup = s
  | none, .null => true
  | _, _ => false

def deliveryLibraryIds (db : LocationDb) (gfaPickup : List (JsonValue N)) : List ℤ :=
  gfaPickup.filterMap fun d =>
    (db.deliveryLocations.find? fun row => hasGfaPickup row d).map (·.id)

/-- The id of the row, if the record is valid. A new record has all delivery locations that are not
for the staff only. -/
def createHoldingLocation (holdingLocation : JsonValue N) :
    Unrestored LocationDb (Option ℤ) := .step fun db => do
  let label := env.castString (← holdingLocation.index "label")
  let code := env.castString (← holdingLocation.index "code")
  let aeonLocation := env.castBoolean (← holdingLocation.index "aeon_location")
  let recapElectronicDeliveryLocation :=
    env.castBoolean (← holdingLocation.index "recap_electronic_delivery_location")
  let isOpen := env.castBoolean (← holdingLocation.index "open")
  let requestable := env.castBoolean (← holdingLocation.index "requestable")
  let alwaysRequestable := env.castBoolean (← holdingLocation.index "always_requestable")
  let circulates := env.castBoolean (← holdingLocation.index "circulates")
  let remoteStorage := env.castString (← holdingLocation.index "remote_storage")
  let fulfillmentUnit := env.castString (← holdingLocation.index "fulfillment_unit")
  let locationsLibraryId ← idOfLibrary env db (← holdingLocation.index "library")
  let holdingLibraryId ← idOfLibrary env db (← holdingLocation.index "holding_library")
  match locationsLibraryId with
  | none => some (none, db)
  | some libraryId =>
    if present code && db.holdingLocations.all (·.code ≠ code)
        && [aeonLocation, recapElectronicDeliveryLocation, isOpen, requestable, alwaysRequestable,
          circulates].all Option.isSome then
      let row : HoldingLocationRow :=
        { id := db.nextHoldingLocationId, label, code, aeonLocation,
          recapElectronicDeliveryLocation, «open» := isOpen, requestable, alwaysRequestable,
          circulates, remoteStorage, fulfillmentUnit, locationsLibraryId := libraryId,
          holdingLibraryId }
      if env.refusesHoldingLocation row || db.holdingLocations.any (·.id = row.id) then none
      else
        some (some row.id, { db with
          holdingLocations := db.holdingLocations ++ [row]
          holdingsDelivery := db.holdingsDelivery
            ++ (db.deliveryLocations.filter (!·.staffOnly)).map fun delivery =>
              (row.id, delivery.id)
          nextHoldingLocationId := db.nextHoldingLocationId + 1 })
    else some (none, db)

/-- `delivery_location_ids=`, which a record that is not saved does not write. -/
def setDeliveryLocationIds (holdingLocation : JsonValue N) (id : Option ℤ) :
    Unrestored LocationDb Unit := .step fun db => do
  let gfaPickup ← (← holdingLocation.index "delivery_locations").each
  match id with
  | none => some ((), db)
  | some id =>
    some ((), { db with
      holdingsDelivery := db.holdingsDelivery.filter (·.1 ≠ id)
        ++ ((deliveryLibraryIds db gfaPickup).eraseDups.map fun delivery => (id, delivery)) })

def populateHoldingLocation (holdingLocation : JsonValue N) : Unrestored LocationDb Unit := do
  let id ← createHoldingLocation env holdingLocation
  setDeliveryLocationIds holdingLocation id

def populateHoldingLocations : Unrestored LocationDb Unit := do
  let holdingLocations ← .value (records env files.holdingLocations)
  .each (populateHoldingLocation env) holdingLocations

end HoldingLocations

def deleteExistingAndRepopulate : Unrestored LocationDb Unit := do
  .change fun db => { db with deliveryLocations := [] }
  .change fun db => { db with holdingLocations := [] }
  .change fun db => { db with libraries := [] }
  populateLibraries env files
  populateDeliveryLocations env files
  populateHoldingLocations env files

end LocationDataService

end Bibdata
