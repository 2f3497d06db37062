import IntervalDump.Config
/-!
# Changes: building a configuration step by step

A configuration may be built by a list of changes. Attributes accumulate; every other part holds
what was set last; and a whole configuration may be put in place of all that came before.
-/

namespace IntervalDump.Config

/-- One call that changes a configuration. -/
inductive Change where
  /-- Begins again with the usual configuration. -/
  | restart
  /-- Goes on from this configuration. -/
  | load (config : Config)
  | addAttribute (name : String)
  | addAttributes (names : List String)
  | setIntervalTag (tag : String)
  | setBeginAttribute (name : String)
  | setIdAttribute (name : String)
  | setKinds (kinds : List Kind)

/-- The configuration with the change made. -/
def change (config : Config) : Change → Config
  | .restart => {}
  | .load loaded => loaded
  | .addAttribute name => config.addAttributes [name]
  | .addAttributes names => config.addAttributes names
  | .setIntervalTag tag => { config with intervalTag := tag }
  | .setBeginAttribute name => { config with beginAttribute := name }
  | .setIdAttribute name => { config with idAttribute := name }
  | .setKinds kinds => { config with kinds := .ofList kinds }

/-- The configuration that changes of the usual one lead to. -/
def ofChanges (changes : List Change) : Config :=
  changes.foldl change {}

end IntervalDump.Config
