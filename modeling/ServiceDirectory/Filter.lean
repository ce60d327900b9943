import ServiceDirectory.Instance

/-! Filters on the candidates of a resolve. -/
namespace ServiceDirectory

abbrev Filter := Instance → Bool

namespace Filter

def tags (tags : List String) : Filter := fun i => tags.all i.hasTag

def version (version : String) : Filter := fun i => i.version == version

def metadata (key value : String) : Filter := fun i => i.metadata.get? key == some value

def versionStart (start : String) : Filter := fun i =>
  start.toList.isPrefixOf i.version.toList

def passesAll (filters : List Filter) (i : Instance) : Bool := filters.all (· i)

def keep (filters : List Filter) (candidates : List Instance) : List Instance :=
  candidates.filter (passesAll filters)

theorem keepWithoutFilters (candidates : List Instance) : keep [] candidates = candidates := by
  simp [keep, passesAll]

end Filter
end ServiceDirectory
