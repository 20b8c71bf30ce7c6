import SeaTunnel.Core.ConnectorFactory
import SeaTunnel.Lib.Format

namespace SeaTunnel.Core.FanoutWire

open Signaling Fanout ConnectorFactory Lib Lib.Text

def bytesFormat : Format Bytes := Format.byte.list '[' ']' (by decide) (.inl rfl)

def entryFormat : Format FanoutCommitEntry :=
  let sink := Format.string.wrap "\x7b\"sink\":".toList [] ⟨'\x7b', _, rfl, by decide⟩ nofun
  let infos := (bytesFormat.list '[' ']' (by decide) (.inl rfl)).wrap "\"infos\":".toList ['\x7d']
    ⟨'"', _, rfl, by decide⟩ (ends_cons rfl _)
  (sink.pair ',' infos rfl).convert (fun entry ↦ (entry.sink, entry.infos)) (fun x ↦ some ⟨x.1, x.2⟩) fun _ ↦ rfl

def infosFormat : Format FanoutCommitInfos :=
  ((entryFormat.list '[' ']' (by decide) (.inl rfl)).wrap "\x7b\"entries\":".toList ['\x7d'] ⟨'\x7b', _, rfl, by decide⟩
    (ends_cons rfl _)).convert FanoutCommitInfos.entries (fun entries ↦ some ⟨entries⟩) fun _ ↦ rfl

def statesFormat : Format (List (String × Bytes)) :=
  (Format.string.pair ':' bytesFormat rfl).list '\x7b' '\x7d' (by decide) (.inr rfl)

def parseBytes {α : Type} (f : Format α) (bytes : Bytes) : Except String α :=
  match (ofBytes bytes).bind f.parse with
  | some a => .ok a
  | none => .error "expected value"

theorem parseBytes_print {α : Type} (f : Format α) (a : α) : parseBytes f (toBytes (f.print a)) = .ok a := by
  rw [parseBytes, ofBytes_toBytes, Option.bind_some, f.parse_print]

def ofPairs (pairs : List (String × Bytes)) : Dict String Bytes :=
  pairs.foldl (fun states x ↦ states.insert x.1 x.2) ∅

def toPairs (states : Dict String Bytes) : List (String × Bytes) := states.entries.map fun e ↦ (e.1, e.2)

theorem lookup_ofPairs (states : Dict String Bytes) (name : String) :
    (ofPairs (toPairs states)).lookup name = states.lookup name := by
  have hkeys : ((toPairs states).map Prod.fst).Nodup := by
    have hmap : (toPairs states).map Prod.fst = states.keys := by simp [toPairs, AList.keys, List.keys, Function.comp_def]
    rw [hmap]
    exact states.keys_nodup
  cases hname : states.lookup name with
  | none =>
    refine (Dict.lookup_collect_of_notMem (fun x hx hkey ↦ ?_) ∅).trans (AList.lookup_empty _)
    obtain ⟨e, he, rfl⟩ := List.mem_map.mp hx
    have hsome := AList.mem_lookup_iff.mpr he
    rw [show e.1 = name from hkey, hname] at hsome
    cases hsome
  | some bytes =>
    have hmem : (name, bytes) ∈ toPairs states :=
      List.mem_map.mpr ⟨⟨name, bytes⟩, AList.mem_lookup_iff.mp hname, rfl⟩
    exact Dict.lookup_collect hkeys hmem ∅

/-- `serde_json`, at the types of the multiplexer. -/
def serdeJson : SerdeJson where
  infosToVec := fun infos ↦ toBytes (infosFormat.print infos)
  statesToVec := fun states ↦ toBytes (statesFormat.print (toPairs states))
  infosFromSlice := parseBytes infosFormat
  statesFromSlice := fun bytes ↦ (parseBytes statesFormat bytes).map ofPairs
  infos_back := parseBytes_print infosFormat
  states_back := fun states ↦ by
    refine ⟨ofPairs (toPairs states), ?_, lookup_ofPairs states⟩
    rw [parseBytes_print]
    rfl

example : String.ofList (infosFormat.print ⟨[⟨"Console#0", [[1, 20], []]⟩, ⟨"a\"b#1", []⟩]⟩) =
    "\x7b\"entries\":[\x7b\"sink\":\"Console#0\",\"infos\":[[1,20],[]]\x7d,\x7b\"sink\":\"a\\\"b#1\",\"infos\":[]\x7d]\x7d" := by
  decide

end SeaTunnel.Core.FanoutWire
