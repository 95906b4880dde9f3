import Mathlib.Tactic

/-!
# Bottlenecks

The reasons to which the delay of an edge is charged, and the report that sums up the delays of a
critical path for each of them.
-/

namespace ArchExplorer.Deg

/-- Edge weights and costs. They are differences of cycle counts, which the source keeps as doubles.
They are exact integers here; the doubles and their sums are exact below `2 ^ 53` only. -/
abbrev Latency := ℤ

/-- The bottlenecks, in the order of the indices `BTK_Base`, …, `BTK_Virtual`. -/
inductive Bottleneck where
  | base
  | icacheMiss
  | dcacheMiss
  | bpMiss
  | rob
  | lq
  | sq
  | intRF
  | fpRF
  | iq
  | intALU
  | intMultDiv
  | fpAlu
  | fpMultDiv
  | rdWrPort
  | raw
  | virtual
  deriving DecidableEq, Repr

namespace Bottleneck

/-- The index of a bottleneck in the list of registered names. -/
def bIdx : Bottleneck → ℕ
  | base       => 0
  | icacheMiss => 1
  | dcacheMiss => 2
  | bpMiss     => 3
  | rob        => 4
  | lq         => 5
  | sq         => 6
  | intRF      => 7
  | fpRF       => 8
  | iq         => 9
  | intALU     => 10
  | intMultDiv => 11
  | fpAlu      => 12
  | fpMultDiv  => 13
  | rdWrPort   => 14
  | raw        => 15
  | virtual    => 16

/-- The name under which a bottleneck is reported. -/
def repr : Bottleneck → String
  | base       => "Base"
  | icacheMiss => "I-cache miss"
  | dcacheMiss => "D-cache miss"
  | bpMiss     => "BP miss"
  | rob        => "Lack ROB"
  | lq         => "Lack LQ"
  | sq         => "Lack SQ"
  | intRF      => "Lack INT RF"
  | fpRF       => "Lack FP RF"
  | iq         => "Lack IQ"
  | intALU     => "Lack IntAlu"
  | intMultDiv => "Lack IntMultDiv"
  | fpAlu      => "Lack FpAlu"
  | fpMultDiv  => "Lack FpMultDiv"
  | rdWrPort   => "Lack RdWrPort"
  | raw        => "Read after write dependence"
  | virtual    => "Virtual"

/-- All bottlenecks in the order in which a name is compared with them. -/
def all : List Bottleneck :=
  [base, icacheMiss, dcacheMiss, bpMiss, rob, lq, sq, intRF, fpRF, iq, intALU, intMultDiv, fpAlu,
    fpMultDiv, rdWrPort, raw, virtual]

end Bottleneck

open Bottleneck in
/-- The registered names. -/
def registerBottlenecks : List String :=
  [base.repr, icacheMiss.repr, dcacheMiss.repr, bpMiss.repr, rob.repr, lq.repr, sq.repr,
    intRF.repr, fpRF.repr, iq.repr, intALU.repr, intMultDiv.repr, fpAlu.repr, fpMultDiv.repr,
    rdWrPort.repr, raw.repr, virtual.repr]

/-- The first bottleneck whose registered name is `name`. -/
def matchName (bottlenecks : List String) (name : String) : Option Bottleneck :=
  Bottleneck.all.find? fun b => bottlenecks[b.bIdx]? = some name

/-- A registered name is matched by its own bottleneck, so no two of them share a name. -/
lemma matchName_repr (b : Bottleneck) : matchName registerBottlenecks b.repr = some b := by
  cases b <;> decide +kernel

/-- The accumulated delay of each bottleneck and the length of the path. -/
structure BottleneckReport where
  length : Latency := 0
  base : Latency := 0
  icacheMiss : Latency := 0
  dcacheMiss : Latency := 0
  bpMiss : Latency := 0
  lackRob : Latency := 0
  lackLq : Latency := 0
  lackSq : Latency := 0
  lackIntRf : Latency := 0
  lackFpRf : Latency := 0
  lackIq : Latency := 0
  lackIntAlu : Latency := 0
  lackIntMultDiv : Latency := 0
  lackFpAlu : Latency := 0
  lackFpMultDiv : Latency := 0
  lackRdWrPort : Latency := 0
  raw : Latency := 0
  virtual : Latency := 0
  deriving DecidableEq, Repr

namespace BottleneckReport

/-- The counter of a bottleneck: `get_base`, …, `get_virtual`. -/
def get (report : BottleneckReport) : Bottleneck → Latency
  | .base       => report.base
  | .icacheMiss => report.icacheMiss
  | .dcacheMiss => report.dcacheMiss
  | .bpMiss     => report.bpMiss
  | .rob        => report.lackRob
  | .lq         => report.lackLq
  | .sq         => report.lackSq
  | .intRF      => report.lackIntRf
  | .fpRF       => report.lackFpRf
  | .iq         => report.lackIq
  | .intALU     => report.lackIntAlu
  | .intMultDiv => report.lackIntMultDiv
  | .fpAlu      => report.lackFpAlu
  | .fpMultDiv  => report.lackFpMultDiv
  | .rdWrPort   => report.lackRdWrPort
  | .raw        => report.raw
  | .virtual    => report.virtual

/-- Charge a delay to a bottleneck: `incr_base`, …, `incr_virtual`. -/
def incr (report : BottleneckReport) (delay : Latency) : Bottleneck → BottleneckReport
  | .base       => { report with base := report.base + delay }
  | .icacheMiss => { report with icacheMiss := report.icacheMiss + delay }
  | .dcacheMiss => { report with dcacheMiss := report.dcacheMiss + delay }
  | .bpMiss     => { report with bpMiss := report.bpMiss + delay }
  | .rob        => { report with lackRob := report.lackRob + delay }
  | .lq         => { report with lackLq := report.lackLq + delay }
  | .sq         => { report with lackSq := report.lackSq + delay }
  | .intRF      => { report with lackIntRf := report.lackIntRf + delay }
  | .fpRF       => { report with lackFpRf := report.lackFpRf + delay }
  | .iq         => { report with lackIq := report.lackIq + delay }
  | .intALU     => { report with lackIntAlu := report.lackIntAlu + delay }
  | .intMultDiv => { report with lackIntMultDiv := report.lackIntMultDiv + delay }
  | .fpAlu      => { report with lackFpAlu := report.lackFpAlu + delay }
  | .fpMultDiv  => { report with lackFpMultDiv := report.lackFpMultDiv + delay }
  | .rdWrPort   => { report with lackRdWrPort := report.lackRdWrPort + delay }
  | .raw        => { report with raw := report.raw + delay }
  | .virtual    => { report with virtual := report.virtual + delay }

/-- The sum of the counters. -/
def total (report : BottleneckReport) : Latency :=
  (Bottleneck.all.map report.get).sum

lemma total_incr (report : BottleneckReport) (delay : Latency) (b : Bottleneck) :
    (report.incr delay b).total = report.total + delay := by
  cases b <;> simp [total, Bottleneck.all, get, incr] <;> ring

@[simp] lemma total_default : ({} : BottleneckReport).total = 0 := by decide

end BottleneckReport

end ArchExplorer.Deg
