import Mathlib.Algebra.Ring.Int.Defs
import NewsAggregator.Python

/-! Charikar simhash over word bigrams, as a 64-bit fingerprint. -/

namespace NewsAggregator.Dedup

def shingle : Nat := 2

def features (py : Python) (text : String) : List String :=
  let toks := findRuns py.isWord (py.casefold text).toList
  if toks.length < shingle then
    if toks.isEmpty then [] else [" ".intercalate toks]
  else
    (List.range (toks.length - shingle + 1)).map fun i =>
      " ".intercalate ((toks.drop i).take shingle)

/-- The vote of all features on one bit. -/
def tally (py : Python) (feats : List String) (bit : Nat) : Int :=
  (feats.map fun f => if (py.blake2b64 f).testBit bit then (1 : Int) else -1).sum

/-- Fingerprint of `text`; 0 when it has no word. -/
def simhash64 (py : Python) (text : String) : Nat :=
  let feats := features py text
  if feats.isEmpty then 0
  else (List.range 64).foldl
    (fun out bit => if 0 < tally py feats bit then out ||| (1 <<< bit) else out) 0

end NewsAggregator.Dedup
