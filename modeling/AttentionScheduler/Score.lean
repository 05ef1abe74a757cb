import AttentionScheduler.Feature

/-!
The attention score: the weighted sum of the eight signals, raised by a fifth when the process is
emergent, and clamped to `[0, 1]`. The sum is taken from the left, with a rounding at every step.
-/

namespace AttentionScheduler

namespace Feature

def weight : Feature → Single
  | load => .ofFraction 20 100
  | memory => .ofFraction 15 100
  | io => .ofFraction 10 100
  | interactive => .ofFraction 25 100
  | realtime => .ofFraction 15 100
  | network => .ofFraction 5 100
  | priority => .ofFraction 5 100
  | emergent => .ofFraction 5 100

end Feature

namespace Score

def emergentThreshold : Single := .ofFraction 1 2

def emergentBoost : Single := .ofFraction 12 10

/-- An empty sum is negative zero, so that eight negative zeros add up to one. -/
def weightedSum (s : Signals) : Single :=
  Feature.all.foldl (fun sum f => sum + s[f.index] * f.weight) .negZero

def attention (s : Signals) : Single :=
  let sum := weightedSum s
  (if emergentThreshold < s[Feature.emergent.index] then sum * emergentBoost else sum).clampUnit

end Score

namespace FeatureVector

def rescore (v : FeatureVector) : FeatureVector := v.setAttention (Score.attention v.signals)

@[simp] theorem rescore_signals (v : FeatureVector) : v.rescore.signals = v.signals := rfl

@[simp] theorem rescore_lastUpdate (v : FeatureVector) : v.rescore.lastUpdate = v.lastUpdate := rfl

end FeatureVector

end AttentionScheduler
