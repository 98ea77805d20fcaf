import Courseware.Package.Export

/-!
Which formats are on offer, and with which exporter.
-/

namespace Courseware

/-- The exporters on offer, at most one for a format. -/
structure Registry where
  exporter? : Format → Option Exporter

namespace Registry

/-- The registry of some exporters; of two for one format the later counts. -/
def ofExporters (exporters : List Exporter) : Registry where
  exporter? format := exporters.reverse.find? fun e => e.format == format

def standard : Registry := ofExporters (Format.all.map Exporter.ofFormat)

def resolve? (r : Registry) (name : String) : Option Exporter :=
  (Format.ofName? name).bind r.exporter?

/-- The formats on offer in the order in which formats are listed. -/
def formats (r : Registry) : List Format :=
  Format.all.filter fun f => (r.exporter? f).isSome

end Registry

end Courseware
