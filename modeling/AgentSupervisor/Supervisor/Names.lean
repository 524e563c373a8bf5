import AgentSupervisor.Text.Numeral

/-!
# Names for sessions

A session that is given no name gets a proposed one. A proposal that is taken is numbered, from
two on and never with the same number again; if the numbered name is taken as well, the next
proposal is tried. A numbered name is never built twice, so one try more than there are names
is enough.

* `NameCounters.pick` : a name that is free.
-/

namespace AgentSupervisor

/-- The last number of each proposal that was taken when it came up. The program counts in 32 bits;
    here the numbers have no end, because the two come apart only when one proposal has been
    numbered 2³² - 1 times. -/
structure NameCounters where
  last : List (String × Nat) := []
  deriving Repr, DecidableEq

namespace NameCounters

/-- The next number of a proposal. -/
def next (k : NameCounters) (base : String) : Nat := (k.last.lookup base).getD 1 + 1

/-- Count a proposal. -/
def count (k : NameCounters) (base : String) : NameCounters :=
  ⟨(base, k.next base) :: k.last.filter fun e => e.1 != base⟩

/-- A proposal with a number. -/
def numbered (base : String) (n : Nat) : String := base ++ "-" ++ String.ofList (Text.decimal n)

/-- A name that is free. `proposals` are the names that are proposed, from number `turn` on. -/
def pick (taken : String → Bool) (proposals : Nat → String) :
    (tries turn : Nat) → NameCounters → String × NameCounters
  | 0, turn, k => (proposals turn, k)
  | tries + 1, turn, k =>
    let base := proposals turn
    if taken base then
      let name := numbered base (k.next base)
      if taken name then pick taken proposals tries (turn + 1) (k.count base)
      else (name, k.count base)
    else (base, k)

end NameCounters

/-! ## Proposals -/

namespace Names

/-- Words that say how something is. -/
def adjectives : List String :=
  ["amber", "brisk", "calm", "dusty", "eager", "fuzzy", "gentle", "hollow", "ivory", "jolly",
    "keen", "lively", "mellow", "nimble", "quiet", "rapid"]

/-- Words for things. -/
def nouns : List String :=
  ["anchor", "badger", "canyon", "delta", "ember", "falcon", "glacier", "harbor", "island",
    "juniper", "lantern", "meadow", "otter", "pebble", "river", "summit", "thicket"]

/-- A proposal: two words that a number chooses. -/
def proposal (n : Nat) : String :=
  adjectives.getD (n % adjectives.length) "" ++ "-" ++ nouns.getD (n % nouns.length) ""

end Names

end AgentSupervisor
