import NdnSvs.Lib.KeyQueue
import NdnSvs.Subscribe

/-! The packets that came along with Sync Interests, and the publications that were delivered from
them, are kept in two maps, each with a queue of its keys.  Whatever comes in, each queue lists the
keys of its map, and they are the latest that came in. -/

namespace NdnSvs

open Lib Lib.Tlv Std

/-- The two maps with their queues. -/
structure PiggyCaches where
  piggyDataCache : KeyQueue Name Data := {}
  piggyDeliveredPublications : KeyQueue PublicationKey Bool := {}

namespace PiggyCaches

/-- The largest numbers of entries. -/
structure Limits where
  piggyDataCacheLimit : Nat
  piggyDeliveredPublicationLimit : Nat

/-- A packet comes along with a Sync Interest, or a publication is remembered. -/
inductive Call
  | receive (data : Data)
  | remember (publication : PublicationKey)

variable (cxx : NdnCxx) (limits : Limits)

/-- A packet is cached under its name and under its full name. -/
def cachePiggyData (c : PiggyCaches) (data : Data) : PiggyCaches :=
  { c with
    piggyDataCache := ((c.piggyDataCache.push data.name data).push (data.fullName cxx) data).trim
      limits.piggyDataCacheLimit }

def rememberPiggyDeliveredPublication (c : PiggyCaches) (publication : PublicationKey) :
    PiggyCaches :=
  { c with
    piggyDeliveredPublications := (c.piggyDeliveredPublications.push publication true).trim
      limits.piggyDeliveredPublicationLimit }

def step (c : PiggyCaches) : Call → PiggyCaches
  | .receive data => c.cachePiggyData cxx limits data
  | .remember publication => c.rememberPiggyDeliveredPublication limits publication

/-- The names that a call brings into the cache of packets. -/
def newNames (c : PiggyCaches) : Call → List Name
  | .receive data => c.piggyDataCache.arrivals [(data.name, data), (data.fullName cxx, data)]
  | .remember _ => []

/-- The publications that a call brings in. -/
def newPublications (c : PiggyCaches) : Call → List PublicationKey
  | .receive _ => []
  | .remember publication => c.piggyDeliveredPublications.arrivals [(publication, true)]

/-- What the calls bring in, in the order in which it comes. -/
def cameIn {α : Type} (new : PiggyCaches → Call → List α) (c : PiggyCaches) : List Call → List α
  | [] => []
  | call :: calls => new c call ++ cameIn new (c.step cxx limits call) calls

variable {cxx limits}

theorem recent_step {c : PiggyCaches} {names : List Name} {publications : List PublicationKey}
    (hdata : c.piggyDataCache.Recent limits.piggyDataCacheLimit names)
    (hdelivered : c.piggyDeliveredPublications.Recent limits.piggyDeliveredPublicationLimit
      publications) (call : Call) :
    (c.step cxx limits call).piggyDataCache.Recent limits.piggyDataCacheLimit
        (names ++ c.newNames cxx call) ∧
      (c.step cxx limits call).piggyDeliveredPublications.Recent
        limits.piggyDeliveredPublicationLimit (publications ++ c.newPublications call) := by
  cases call with
  | receive data =>
    refine ⟨hdata.accept [(data.name, data), (data.fullName cxx, data)], ?_⟩
    rw [newPublications, List.append_nil]
    exact hdelivered
  | remember publication =>
    refine ⟨?_, hdelivered.accept [(publication, true)]⟩
    rw [newNames, List.append_nil]
    exact hdata

theorem recent_calls {c : PiggyCaches} {names : List Name} {publications : List PublicationKey}
    (hdata : c.piggyDataCache.Recent limits.piggyDataCacheLimit names)
    (hdelivered : c.piggyDeliveredPublications.Recent limits.piggyDeliveredPublicationLimit
      publications) (calls : List Call) :
    (calls.foldl (step cxx limits) c).piggyDataCache.Recent limits.piggyDataCacheLimit
        (names ++ cameIn cxx limits (newNames cxx) c calls) ∧
      (calls.foldl (step cxx limits) c).piggyDeliveredPublications.Recent
        limits.piggyDeliveredPublicationLimit
        (publications ++ cameIn cxx limits newPublications c calls) := by
  induction calls generalizing c names publications with
  | nil =>
    rw [cameIn, cameIn, List.append_nil, List.append_nil]
    exact ⟨hdata, hdelivered⟩
  | cons call calls ih =>
    rw [cameIn, cameIn, ← List.append_assoc, ← List.append_assoc]
    obtain ⟨hdata, hdelivered⟩ := @recent_step cxx limits _ _ _ hdata hdelivered call
    exact ih hdata hdelivered

/-- After any calls each queue lists every key of its map once and nothing else, no map has more
than its limit, and the keys that are there are the latest that came in: those that came in first
were removed. -/
theorem piggy_caches_recent (cxx : NdnCxx) (limits : Limits) (calls : List Call) :
    (calls.foldl (step cxx limits) {}).piggyDataCache.Recent limits.piggyDataCacheLimit
        (cameIn cxx limits (newNames cxx) {} calls) ∧
      (calls.foldl (step cxx limits) {}).piggyDeliveredPublications.Recent
        limits.piggyDeliveredPublicationLimit (cameIn cxx limits newPublications {} calls) :=
  @recent_calls cxx limits {} [] [] (KeyQueue.recent_empty _) (KeyQueue.recent_empty _) calls

end PiggyCaches

end NdnSvs
