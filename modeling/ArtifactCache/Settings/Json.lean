import ArtifactCache.Json.Record
import ArtifactCache.Json.Report
import ArtifactCache.Json.Written
import ArtifactCache.Settings.Basic

/-! # Settings in JSON

Every field of the settings may be missing, and then it has its default.
-/

namespace ArtifactCache.Settings

open Json

def fields : List (FieldReader Settings) :=
  let count : Reader UInt64 := Reader.unsigned "usize"
  [.defaulted "baseDir" (Reader.text "path string") fun path settings =>
     { settings with baseDirectory := .ofString path },
   .defaulted "maxSizeBytes" (Reader.unsigned "u64") fun maxSize settings =>
     { settings with maxSize },
   .defaulted "maxConcurrentRemovals" count fun maxRemovals settings =>
     { settings with maxRemovals },
   .defaulted "migrationWorkers" (Reader.optional count) fun upgradeWorkers settings =>
     { settings with upgradeWorkers },
   .defaulted "scanWorkers" (Reader.optional count) fun inventoryWorkers settings =>
     { settings with inventoryWorkers }]

/-- Read settings over the given defaults. -/
def reader (defaults : Settings) : Reader Settings :=
  Reader.record "DiskCacheConfig" fields defaults

/-- Settings in JSON.  A base directory that is no text cannot be written. -/
def toJson? (settings : Settings) : Option String :=
  (DiskPath.textOf? settings.baseDirectory.bytes).map fun base =>
    writtenObject
      [("baseDir", writtenText base),
       ("maxSizeBytes", Decimal.render settings.maxSize),
       ("maxConcurrentRemovals", Decimal.render settings.maxRemovals),
       ("migrationWorkers", writtenOptional settings.upgradeWorkers),
       ("scanWorkers", writtenOptional settings.inventoryWorkers)]

end ArtifactCache.Settings
