/-
The clock: `kernel/clock.c`.

What the processor and `hwinfo` say is passed in: whether there is a time stamp counter, the
frequency that `hwinfo` found for it, and what it reads now.

The nanoseconds are computed from the counter in one of two ways: a frequency of a gigahertz and
more is divided first, a lower one last.  Without a counter the ticks of the timer are taken.
-/
import Mathlib

namespace BrightS

def clockDefaultFreq : UInt64 := 2400000000
def nsPerSecond : UInt64 := 1000000000
def nsPerTick : UInt64 := 10000000

/-- What the hardware says at the time of a call. -/
structure ClockHw where
  hasTsc : Bool
  /-- `tsc_freq` of the information on the processor, if there is any. -/
  cpuTscFreq : Option UInt64
  tsc : UInt64

/-- The statics of the module: the ticks since boot, and the frequency once it is known. -/
structure Clock where
  clockTicks : UInt64
  tscFreq : UInt64

/-- `brights_clock_init`. -/
def clockInit : Clock := { clockTicks := 0, tscFreq := 0 }

/-- `brights_clock_tick`: a timer interrupt. -/
def clockTick (c : Clock) : Clock := { c with clockTicks := c.clockTicks + 1 }

/-- `brights_clock_advance`, by any number of ticks. -/
def clockAdvance (c : Clock) (ticks : UInt64) : Clock :=
  { c with clockTicks := c.clockTicks + ticks }

/-- The frequency is taken from `hwinfo`, or else assumed.  One that is known is kept. -/
def clockCalibrate (hw : ClockHw) (c : Clock) : Clock :=
  if 0 < c.tscFreq then c else
  if hw.hasTsc = false then c else
  match hw.cpuTscFreq with
  | none => { c with tscFreq := clockDefaultFreq }
  | some f => if 0 < f then { c with tscFreq := f } else { c with tscFreq := clockDefaultFreq }

/-- The clock after the call, and the nanoseconds. -/
def clockNs (hw : ClockHw) (c : Clock) : Clock × UInt64 :=
  let c := if c.tscFreq = 0 then clockCalibrate hw c else c
  if 0 < c.tscFreq ∧ hw.hasTsc = true then
    if nsPerSecond ≤ c.tscFreq then (c, hw.tsc / (c.tscFreq / nsPerSecond))
    else (c, hw.tsc * nsPerSecond / c.tscFreq)
  else (c, c.clockTicks * nsPerTick)

end BrightS
