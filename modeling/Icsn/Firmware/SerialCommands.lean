import Icsn.Config.MacParsers
import Icsn.Controller.ESPNOWController
import Icsn.Lib.Trim

/-!
# Icsn — the commands of the serial line

`main.cpp`: from a line that was typed to a command, and what `send_interest` answers.  The commands
that print tables are told apart only.

* **`SerialLine`** — a line as `readStringUntil` reads it.
* **`interestRequest`** — the arguments of `send_interest`, checked one after the other.
* **`commandOf`** — which command a line is.
* **`commandOf_eq_send_iff`** — the lines that make the node send an INTEREST.
* **`commandOf_written`** — a command that is written as the help says is read as it was meant.
-/

namespace Icsn

open Trim (trim Blank Trimmed cut)

/-- A line from the serial port: the bytes up to the newline, none of them NUL. -/
structure SerialLine where
  text : Str
  no_nul : (0 : UInt8) ∉ text
  no_newline : (10 : UInt8) ∉ text

/-! ## Addresses and names

What the checks of `send_interest` look at: three kinds of addresses, and the first character of a
name. -/

def isZeroMacAddress (mac : Mac) : Bool := mac.toList.all (· == 0)

def isBroadcastOrMulticastMacAddress (mac : Mac) : Bool :=
  mac.toList.all (· == 0xFF) || mac.head &&& 0x01 != 0

def isValidContentName (contentName : Str) : Bool :=
  decide (contentName.length > 0) && charAt contentName 0 == 47

/-- A hexadecimal digit, in upper case. -/
def upperHexDigit (n : Nat) : UInt8 :=
  if n < 10 then UInt8.ofNat (48 + n) else UInt8.ofNat (55 + n)

/-- `formatMac`, into an array that is large enough. -/
def formatMac (mac : Mac) : Str :=
  (colonPairs (mac.toList.map fun b =>
    (upperHexDigit (b.toNat / 16), upperHexDigit (b.toNat % 16)))).tail

/-- The name that `send_interest` has without one, and of the sensor data. -/
def sensorContentName : Str :=
  ascii ['/', 'i', 'o', 't', '/', 'b', 'u', 'i', 'l', 'd', 'i', 'n', 'g', 'A', '/', 'r', 'o', 'o',
    'm', '1', '0', '1']

/-! ## `send_interest`

The arguments are cut at the first blank and trimmed.  The checks come in the order of the source,
and the first that fails decides the answer. -/

/-- What the checks of `send_interest` come to. -/
inductive InterestRequest where
  | missingTarget
  | invalidTarget
  | zeroTarget
  | groupTarget
  | invalidName
  | send (targetMac : Mac) (contentName : Str)
deriving DecidableEq

/-- The arguments of `send_interest`. -/
def interestRequest (args : Str) : InterestRequest :=
  let args := trim isSpace args
  if args.length = 0 then .missingTarget
  else
    let parts := cut 32 args
    let macText := trim isSpace parts.1
    let contentName := trim isSpace parts.2
    let contentName := if contentName.length = 0 then sensorContentName else contentName
    let target := parseMacAddress macText Mac.zero
    if target.1 = false then .invalidTarget
    else if isZeroMacAddress target.2 then .zeroTarget
    else if isBroadcastOrMulticastMacAddress target.2 then .groupTarget
    else if isValidContentName contentName = false then .invalidName
    else .send target.2 contentName

/-! ## All commands

A line is trimmed and compared with the words one by one.  `send_interest` is the only one with
arguments, so it is the word itself or the word with a space behind it. -/

inductive SerialCommand where
  | sendInterest (request : InterestRequest)
  | stopInterest
  | readSensor
  | dumpPerf
  | resetPerf
  | perfCount
  | showCounters
  | showFib
  | showStatus
  | showPit
  | showCs
  | clearCache
  | showMem
  | help
  | unknown
deriving DecidableEq

def sendInterestWord : Str :=
  ascii ['s', 'e', 'n', 'd', '_', 'i', 'n', 't', 'e', 'r', 'e', 's', 't']

def stopInterestWord : Str :=
  ascii ['s', 't', 'o', 'p', '_', 'i', 'n', 't', 'e', 'r', 'e', 's', 't']

def readSensorWord : Str := ascii ['r', 'e', 'a', 'd', '_', 's', 'e', 'n', 's', 'o', 'r']

def dumpPerfWord : Str := ascii ['d', 'u', 'm', 'p', '_', 'p', 'e', 'r', 'f']

def resetPerfWord : Str := ascii ['r', 'e', 's', 'e', 't', '_', 'p', 'e', 'r', 'f']

def perfCountWord : Str := ascii ['p', 'e', 'r', 'f', '_', 'c', 'o', 'u', 'n', 't']

def showCountersWord : Str :=
  ascii ['s', 'h', 'o', 'w', '_', 'c', 'o', 'u', 'n', 't', 'e', 'r', 's']

def showFibWord : Str := ascii ['s', 'h', 'o', 'w', '_', 'f', 'i', 'b']

def showStatusWord : Str := ascii ['s', 'h', 'o', 'w', '_', 's', 't', 'a', 't', 'u', 's']

def showPitWord : Str := ascii ['s', 'h', 'o', 'w', '_', 'p', 'i', 't']

def showCsWord : Str := ascii ['s', 'h', 'o', 'w', '_', 'c', 's']

def clearCacheWord : Str := ascii ['c', 'l', 'e', 'a', 'r', '_', 'c', 'a', 'c', 'h', 'e']

def showMemWord : Str := ascii ['s', 'h', 'o', 'w', '_', 'm', 'e', 'm']

def helpWord : Str := ascii ['h', 'e', 'l', 'p']

/-- The chain of comparisons in `loop`. -/
def commandOf (line : Str) : SerialCommand :=
  let msg := trim isSpace line
  if msg = sendInterestWord ∨ sendInterestWord ++ [32] <+: msg then
    .sendInterest (interestRequest (msg.drop sendInterestWord.length))
  else if msg = stopInterestWord then .stopInterest
  else if msg = readSensorWord then .readSensor
  else if msg = dumpPerfWord then .dumpPerf
  else if msg = resetPerfWord then .resetPerf
  else if msg = perfCountWord then .perfCount
  else if msg = showCountersWord then .showCounters
  else if msg = showFibWord then .showFib
  else if msg = showStatusWord then .showStatus
  else if msg = showPitWord then .showPit
  else if msg = showCsWord then .showCs
  else if msg = clearCacheWord then .clearCache
  else if msg = showMemWord then .showMem
  else if msg = helpWord then .help
  else .unknown

/-! ## What `send_interest` answers

The texts are those of the source, with the MAC and the name put in where it prints them. -/

def errorTargetRequired : Str :=
  ascii ['[', 'C', 'M', 'D', ']', ' ', 'E', 'R', 'R', 'O', 'R', ':', ' ', 't', 'a', 'r', 'g', 'e',
    't', ' ', 'M', 'A', 'C', ' ', 'i', 's', ' ', 'r', 'e', 'q', 'u', 'i', 'r', 'e', 'd']

def usageText : Str :=
  ascii ['U', 's', 'a', 'g', 'e', ':', ' ', 's', 'e', 'n', 'd', '_', 'i', 'n', 't', 'e', 'r', 'e',
    's', 't', ' ', '<', 't', 'a', 'r', 'g', 'e', 't', '-', 'm', 'a', 'c', '>', ' ', '[', 'c', 'o',
    'n', 't', 'e', 'n', 't', '-', 'n', 'a', 'm', 'e', ']']

def errorInvalidMac : Str :=
  ascii ['[', 'C', 'M', 'D', ']', ' ', 'E', 'R', 'R', 'O', 'R', ':', ' ', 'i', 'n', 'v', 'a', 'l',
    'i', 'd', ' ', 'M', 'A', 'C', ' ', 'a', 'd', 'd', 'r', 'e', 's', 's']

def expectedFormatText : Str :=
  ascii ['E', 'x', 'p', 'e', 'c', 't', 'e', 'd', ' ', 'f', 'o', 'r', 'm', 'a', 't', ':', ' ', 'X',
    'X', ':', 'X', 'X', ':', 'X', 'X', ':', 'X', 'X', ':', 'X', 'X', ':', 'X', 'X']

def zeroAddressText : Str :=
  ascii ['Z', 'e', 'r', 'o', ' ', 'a', 'd', 'd', 'r', 'e', 's', 's', ' ', 'i', 's', ' ', 'n', 'o',
    't', ' ', 'a', 'l', 'l', 'o', 'w', 'e', 'd']

def groupAddressText : Str :=
  ascii ['B', 'r', 'o', 'a', 'd', 'c', 'a', 's', 't', ' ', 'a', 'n', 'd', ' ', 'm', 'u', 'l', 't',
    'i', 'c', 'a', 's', 't', ' ', 'a', 'd', 'd', 'r', 'e', 's', 's', 'e', 's', ' ', 'a', 'r', 'e',
    ' ', 'n', 'o', 't', ' ', 'a', 'l', 'l', 'o', 'w', 'e', 'd']

def errorInvalidName : Str :=
  ascii ['[', 'C', 'M', 'D', ']', ' ', 'E', 'R', 'R', 'O', 'R', ':', ' ', 'i', 'n', 'v', 'a', 'l',
    'i', 'd', ' ', 'C', 'o', 'n', 't', 'e', 'n', 't', ' ', 'N', 'a', 'm', 'e']

def nameFormatText : Str :=
  ascii ['C', 'o', 'n', 't', 'e', 'n', 't', ' ', 'N', 'a', 'm', 'e', ' ', 'm', 'u', 's', 't', ' ',
    's', 't', 'a', 'r', 't', ' ', 'w', 'i', 't', 'h', ' ', '/']

def errorSendFailed : Str :=
  ascii ['[', 'C', 'M', 'D', ']', ' ', 'E', 'R', 'R', 'O', 'R', ':', ' ', 'I', 'N', 'T', 'E', 'R',
    'E', 'S', 'T', ' ', 's', 'e', 'n', 'd', ' ', 'f', 'a', 'i', 'l', 'e', 'd']

def checkText : Str :=
  ascii ['C', 'h', 'e', 'c', 'k', ' ', 'p', 'e', 'e', 'r', ' ', 'r', 'e', 'g', 'i', 's', 't', 'r',
    'a', 't', 'i', 'o', 'n', ' ', 'a', 'n', 'd', ' ', 's', 'e', 'c', 'u', 'r', 'i', 't', 'y', ' ',
    'c', 'o', 'n', 'f', 'i', 'g', 'u', 'r', 'a', 't', 'i', 'o', 'n', '.']

def interestSentText : Str :=
  ascii ['[', 'C', 'M', 'D', ']', ' ', 'I', 'N', 'T', 'E', 'R', 'E', 'S', 'T', ' ', 's', 'e', 'n',
    't']

/-- The lines printed, with whether `sendInterest` succeeded. -/
def InterestRequest.answer (sent : Bool) : InterestRequest → List Str
  | .missingTarget => [errorTargetRequired, usageText]
  | .invalidTarget => [errorInvalidMac, expectedFormatText]
  | .zeroTarget => [errorInvalidMac, zeroAddressText]
  | .groupTarget => [errorInvalidMac, groupAddressText]
  | .invalidName => [errorInvalidName, nameFormatText]
  | .send targetMac contentName =>
    if sent then
      [interestSentText, ascii ['t', 'a', 'r', 'g', 'e', 't', '='] ++ formatMac targetMac,
        ascii ['c', 'o', 'n', 't', 'e', 'n', 't', '='] ++ contentName,
        ascii ['h', 'o', 'p', '_', 'c', 'o', 'u', 'n', 't', '=', '1']]
    else [errorSendFailed, checkText]

/-! ## The grammar of `send_interest`

A grammar of lines that says nothing of trimming or cutting: where blanks may stand, what spells a
MAC, what may follow it.  That the parser takes just these lines is shown from the inside out, for
the checks, the arguments and the line. -/

/-- A peer that an INTEREST can be sent to. -/
def IsTarget (mac : Mac) : Prop :=
  mac ≠ Mac.zero ∧ ESP_NOWController.isBroadcastOrMulticast mac = false

instance (mac : Mac) : Decidable (IsTarget mac) := inferInstanceAs (Decidable (_ ∧ _))

/-- The text of a MAC: six pairs of hexadecimal digits, in either case, with colons between them,
each pair for one byte. -/
def SpellsMac (text : Str) (mac : Mac) : Prop :=
  ∃ ps : List (UInt8 × UInt8), ps.length = 6 ∧ (∀ p ∈ ps, TwoDigits p) ∧
    58 :: text = colonPairs ps ∧ mac.toList = ps.map pairValue

/-- What follows the MAC: nothing, which stands for the name of the sensor, or blanks with a space
among them and a name. -/
def NameOf (rest name : Str) : Prop :=
  (rest = [] ∧ name = sensorContentName) ∨
    ∃ gap, Blank isSpace gap ∧ (32 : UInt8) ∈ gap ∧ rest = gap ++ name ∧ name.head? = some 47

/-- A line with the word, a MAC and perhaps a name. -/
def IsInterestLine (line : Str) (mac : Mac) (name : Str) : Prop :=
  ∃ lead gap macText rest trail,
    line = lead ++ (sendInterestWord ++ gap ++ macText ++ rest) ++ trail ∧ Blank isSpace lead ∧
    Blank isSpace gap ∧ gap.head? = some 32 ∧ SpellsMac macText mac ∧ NameOf rest name ∧
    (∀ c ∈ name.getLast?, isSpace c = false) ∧ Blank isSpace trail

/-- The name is a part of the line, or the one of the sensor. -/
theorem IsInterestLine.zero_notMem {line : Str} {mac : Mac} {name : Str}
    (h : IsInterestLine line mac name) (h0 : (0 : UInt8) ∉ line) : (0 : UInt8) ∉ name := by
  obtain ⟨lead, gap, macText, rest, trail, rfl, -, -, -, -, hname, -, -⟩ := h
  rcases hname with ⟨-, rfl⟩ | ⟨gap', -, -, rfl, -⟩
  · decide
  · exact fun hmem => h0 (by simp [hmem])

theorem isZeroMacAddress_iff (mac : Mac) : isZeroMacAddress mac = true ↔ mac = Mac.zero := by
  rw [← List.Vector.toList_injective.eq_iff]
  show _ ↔ mac.toList = List.replicate 6 0
  rw [List.eq_replicate_iff, and_iff_right (List.Vector.toList_length mac)]
  unfold isZeroMacAddress
  simp

theorem isValidContentName_iff (contentName : Str) :
    isValidContentName contentName = true ↔ contentName.head? = some 47 := by
  unfold isValidContentName charAt
  cases contentName <;> simp

/-- The checks of the MAC and the name. -/
theorem checks_eq_send_iff {target : Bool × Mac} {contentName name : Str} {mac : Mac} :
    (if target.1 = false then InterestRequest.invalidTarget
      else if isZeroMacAddress target.2 then .zeroTarget
      else if isBroadcastOrMulticastMacAddress target.2 then .groupTarget
      else if isValidContentName contentName = false then .invalidName
      else .send target.2 contentName) = .send mac name ↔
    resultOf target = some mac ∧ IsTarget mac ∧ contentName = name ∧ name.head? = some 47 := by
  obtain ⟨ok, found⟩ := target
  have hgroup : isBroadcastOrMulticastMacAddress found
      = ESP_NOWController.isBroadcastOrMulticast found := rfl
  cases ok with
  | false => exact iff_of_false (fun h => by cases h) (fun h => by cases h.1)
  | true =>
    have hresult : resultOf (true, found) = some found := rfl
    dsimp only
    rw [if_neg (by decide), hresult, Option.some.injEq, hgroup]
    by_cases hzero : isZeroMacAddress found = true
    · rw [if_pos hzero]
      refine iff_of_false (fun h => by cases h) ?_
      rintro ⟨rfl, htarget, -⟩
      exact htarget.1 ((isZeroMacAddress_iff _).mp hzero)
    · rw [if_neg hzero]
      by_cases hmulti : ESP_NOWController.isBroadcastOrMulticast found = true
      · rw [if_pos hmulti]
        refine iff_of_false (fun h => by cases h) ?_
        rintro ⟨rfl, htarget, -⟩
        exact absurd (hmulti.symm.trans htarget.2) (by decide)
      · rw [if_neg hmulti]
        rw [Bool.not_eq_true] at hmulti
        have htarget : IsTarget found := ⟨mt (isZeroMacAddress_iff found).mpr hzero, hmulti⟩
        by_cases hvalid : isValidContentName contentName = true
        · rw [if_neg (by rw [hvalid]; decide), InterestRequest.send.injEq]
          constructor
          · rintro ⟨rfl, rfl⟩
            exact ⟨rfl, htarget, rfl, (isValidContentName_iff _).mp hvalid⟩
          · rintro ⟨rfl, -, rfl, -⟩
            exact ⟨rfl, rfl⟩
        · rw [if_pos (Bool.not_eq_true _ |>.mp hvalid)]
          refine iff_of_false (fun h => by cases h) ?_
          rintro ⟨-, -, rfl, hname⟩
          exact hvalid ((isValidContentName_iff _).mpr hname)

/-- **`parseMacAddress`** takes the texts of MACs, each for its MAC. -/
theorem parseMacAddress_eq_some_iff {text : Str} {mac : Mac} :
    resultOf (parseMacAddress text Mac.zero) = some mac ↔ SpellsMac text mac := by
  constructor
  · intro h
    have htaken : (parseMacAddress text Mac.zero).1 = true := by
      rw [← resultOf_isSome, h]
      rfl
    obtain ⟨ps, hlen, hps, htext⟩ := isMacText_of_parseMacAddress htaken
    rw [parseMacAddress_of_colonPairs hlen hps htext] at h
    exact ⟨ps, hlen, hps, htext, (congrArg List.Vector.toList (Option.some.inj h)).symm⟩
  · rintro ⟨ps, hlen, hps, htext, hmac⟩
    rw [parseMacAddress_of_colonPairs hlen hps htext]
    exact congrArg some (List.Vector.toList_injective hmac.symm)

/-- A text of a MAC has no blank in it. -/
theorem SpellsMac.plain {text : Str} {mac : Mac} (h : SpellsMac text mac) :
    text ≠ [] ∧ ∀ c ∈ text, isSpace c = false := by
  obtain ⟨ps, hlen, hps, htext, -⟩ := h
  have hdigit : ∀ c, IsHexDigit c → isSpace c = false := by
    intro c hc
    by_contra hspace
    rw [Bool.not_eq_false] at hspace
    unfold IsHexDigit at hc
    rw [hexDigitValue_of_special (Or.inl hspace)] at hc
    cases hc
  refine ⟨fun hnil => ?_, fun c hc => ?_⟩
  · have := congrArg List.length htext
    rw [hnil, length_colonPairs, hlen] at this
    cases this
  · have hmem : c ∈ colonPairs ps := by
      rw [← htext]
      exact List.mem_cons_of_mem 58 hc
    obtain ⟨p, hp, hc⟩ := List.mem_flatMap.mp hmem
    rcases List.mem_cons.mp hc with rfl | hc
    · rfl
    · rcases List.mem_cons.mp hc with rfl | hc
      · exact hdigit _ (hps p hp).1
      · rw [List.mem_singleton.mp hc]
        exact hdigit _ (hps p hp).2

theorem SpellsMac.trimmed {text : Str} {mac : Mac} (h : SpellsMac text mac) :
    Trimmed isSpace text where
  head c hc := h.plain.2 c (List.mem_of_mem_head? hc)
  last c hc := h.plain.2 c (List.mem_of_getLast? hc)

/-- **The arguments** that make the node send an INTEREST. -/
theorem interestRequest_eq_send_iff {args : Str} {mac : Mac} {name : Str} :
    interestRequest args = .send mac name ↔
      IsTarget mac ∧ ∃ macText rest, trim isSpace args = macText ++ rest ∧ SpellsMac macText mac ∧
        NameOf rest name := by
  obtain ⟨-, -, -, -, -, htrimmed⟩ := Trim.exists_blanks_trim isSpace args
  unfold interestRequest
  dsimp only
  revert htrimmed
  generalize trim isSpace args = s
  intro htrimmed
  constructor
  · -- taken apart: the cut is at the first blank, and the two parts are trimmed
    intro h
    by_cases hempty : s.length = 0
    · rw [if_pos hempty] at h
      cases h
    · rw [if_neg hempty, checks_eq_send_iff] at h
      obtain ⟨hmac, htarget, hname, hslash⟩ := h
      refine ⟨htarget, ?_⟩
      rcases Trim.cut_cases 32 s with ⟨-, hcut⟩ | ⟨t, r, -, rfl, hcut⟩
      · -- no name
        rw [hcut] at hmac hname
        rw [show trim isSpace (s, ([] : Str)).1 = s from htrimmed.trim_eq] at hmac
        exact ⟨s, [], (List.append_nil s).symm, parseMacAddress_eq_some_iff.mp hmac,
          Or.inl ⟨rfl, hname.symm⟩⟩
      · obtain ⟨⟨-, b, hb, ht⟩, hne, a, ha, hr⟩ := htrimmed.parts rfl
        rw [hcut] at hmac hname
        dsimp only at hmac hname
        rw [if_neg (fun h => hne (List.length_eq_zero_iff.mp h))] at hname
        subst hname
        refine ⟨_, _, ?_, parseMacAddress_eq_some_iff.mp hmac,
          Or.inr ⟨b ++ 32 :: a, hb.append ?_, by simp, rfl, hslash⟩⟩
        · conv_lhs => rw [ht, hr]
          simp
        · exact List.forall_mem_cons.mpr ⟨rfl, ha⟩
  · -- put together: a MAC has no blank, so the cut is behind it
    rintro ⟨htarget, macText, rest, rfl, hmac, hname⟩
    have hplain := hmac.plain
    have hspace : (32 : UInt8) ∉ macText := fun h => absurd (hplain.2 32 h) (by decide)
    rw [if_neg (by simp [hplain.1]), checks_eq_send_iff]
    rcases hname with ⟨rfl, rfl⟩ | ⟨gap, hgap, hmem, rfl, hslash⟩
    · rw [List.append_nil, Trim.cut_of_notMem hspace]
      dsimp only
      rw [hmac.trimmed.trim_eq]
      exact ⟨parseMacAddress_eq_some_iff.mpr hmac, htarget, rfl, rfl⟩
    · obtain ⟨g₁, g₂, rfl, hg₁⟩ := List.eq_append_cons_of_mem hmem
      have hblanks := List.forall_mem_append.mp hgap
      have hne : name ≠ [] := fun h => by rw [h] at hslash; cases hslash
      -- a slash in front and no blank at the end, so trimming leaves the name
      have hnamed : Trimmed isSpace name := by
        refine ⟨fun c hc => ?_, fun c hc => htrimmed.last c ?_⟩
        · obtain rfl := Option.some.inj (hslash.symm.trans hc)
          rfl
        · rw [List.getLast?_append_of_ne_nil _ (by simp),
            List.getLast?_append_of_ne_nil _ hne]
          exact hc
      have hcut : cut 32 (macText ++ (g₁ ++ 32 :: g₂ ++ name)) = (macText ++ g₁, g₂ ++ name) := by
        rw [List.append_assoc g₁, List.cons_append, ← List.append_assoc macText]
        exact Trim.cut_append (by simp [hspace, hg₁]) _
      have hmacText := Trim.trim_of_blanks Blank.nil hmac.trimmed hblanks.1
      have hnameText := Trim.trim_of_blanks (List.forall_mem_cons.mp hblanks.2).2 hnamed Blank.nil
      rw [List.nil_append] at hmacText
      rw [List.append_nil] at hnameText
      rw [hcut]
      dsimp only
      rw [hmacText, hnameText, if_neg (by simp [hne])]
      exact ⟨parseMacAddress_eq_some_iff.mpr hmac, htarget, rfl, hslash⟩

/-- A name as `IsInterestLine` has it behind a MAC ends without a blank. -/
theorem trimmed_command {macText rest name : Str} {mac : Mac} (hmac : SpellsMac macText mac)
    (hname : NameOf rest name) (hlast : ∀ c ∈ name.getLast?, isSpace c = false) :
    macText ++ rest ≠ [] ∧ Trimmed isSpace (macText ++ rest) := by
  have hne := hmac.plain.1
  refine ⟨fun h => hne (List.append_eq_nil_iff.mp h).1, fun c hc => ?_, ?_⟩
  · rw [List.head?_append_of_ne_nil _ hne] at hc
    exact hmac.trimmed.head c hc
  · rcases hname with ⟨rfl, -⟩ | ⟨gap, -, -, rfl, hslash⟩
    · rw [List.append_nil]
      exact hmac.trimmed.last
    · intro c hc
      have hne : name ≠ [] := fun h => by rw [h] at hslash; cases hslash
      rw [List.getLast?_append_of_ne_nil _ (by simp [hne]),
        List.getLast?_append_of_ne_nil _ hne] at hc
      exact hlast c hc

theorem last_of_trimmed {macText rest name : Str} (hname : NameOf rest name)
    (h : Trimmed isSpace (macText ++ rest)) : ∀ c ∈ name.getLast?, isSpace c = false := by
  intro c hc
  rcases hname with ⟨-, rfl⟩ | ⟨gap, -, -, rfl, hslash⟩
  · obtain rfl := Option.some.inj hc
    rfl
  · have hne : name ≠ [] := fun h => by rw [h] at hslash; cases hslash
    apply h.last c
    rw [List.getLast?_append_of_ne_nil _ (by simp [hne]),
      List.getLast?_append_of_ne_nil _ hne]
    exact hc

/-- A line that is this command starts with the word for it. -/
theorem sendInterest_of_commandOf {line : Str} {request : InterestRequest}
    (h : commandOf line = .sendInterest request) :
    (trim isSpace line = sendInterestWord ∨ sendInterestWord ++ [32] <+: trim isSpace line) ∧
      interestRequest ((trim isSpace line).drop sendInterestWord.length) = request := by
  unfold commandOf at h
  dsimp only at h
  by_cases hword : trim isSpace line = sendInterestWord ∨
      sendInterestWord ++ [32] <+: trim isSpace line
  · rw [if_pos hword] at h
    exact ⟨hword, SerialCommand.sendInterest.inj h⟩
  · rw [if_neg hword] at h
    -- each of the others is a command of its own
    have hother : ∀ {p : Prop} [Decidable p] {a b : SerialCommand}, a ≠ .sendInterest request →
        b ≠ .sendInterest request → (if p then a else b) ≠ .sendInterest request := by
      intro p _ a b ha hb
      by_cases hp : p
      · rwa [if_pos hp]
      · rwa [if_neg hp]
    refine absurd h ?_
    iterate 13 refine hother (fun h => by cases h) ?_
    exact fun h => by cases h

theorem trimmed_sendInterestWord : Trimmed isSpace sendInterestWord := by
  refine ⟨fun c hc => ?_, fun c hc => ?_⟩ <;> obtain rfl := Option.some.inj hc <;> rfl

section Lines

variable {line : Str} {mac : Mac} {name : Str}

/-- A line that makes the node send an INTEREST is one of the grammar. -/
theorem isInterestLine_of_commandOf (h : commandOf line = .sendInterest (.send mac name)) :
    IsTarget mac ∧ IsInterestLine line mac name := by
  obtain ⟨hword', hrequest⟩ := sendInterest_of_commandOf h
  obtain ⟨htarget, macText, rest, hargs, hmac, hname⟩ := interestRequest_eq_send_iff.mp hrequest
  obtain ⟨lead, trail, hlead, htrail, hline, -⟩ := Trim.exists_blanks_trim isSpace line
  refine ⟨htarget, ?_⟩
  rcases hword' with hmsg | ⟨r, hmsg⟩
  · -- the word alone has no arguments
    rw [hmsg, List.drop_length] at hargs
    exact absurd (List.append_eq_nil_iff.mp hargs.symm).1 hmac.plain.1
  · rw [← hmsg, List.append_assoc, List.drop_left] at hargs
    obtain ⟨a, b, ha, hb, hr, htrimmed⟩ := Trim.exists_blanks_trim isSpace ([32] ++ r)
    rw [hargs] at hr htrimmed
    refine ⟨lead, a, macText, rest, b ++ trail, ?_, hlead, ha, ?_, hmac, hname,
      last_of_trimmed hname htrimmed, hb.append htrail⟩
    · rw [hline, ← hmsg, List.append_assoc sendInterestWord, hr]
      simp only [List.append_assoc]
    · -- the space behind the word is none of the MAC
      cases a with
      | nil =>
        have hhead := htrimmed.head 32 (by
          cases hcommand : macText ++ rest with
          | nil => exact absurd (List.append_eq_nil_iff.mp hcommand).1 hmac.plain.1
          | cons c command =>
            rw [hcommand] at hr
            rw [← (List.cons.inj hr).1]
            rfl)
        cases hhead
      | cons c a =>
        rw [← (List.cons.inj hr).1]
        rfl

/-- A line of the grammar makes the node send that INTEREST. -/
theorem commandOf_of_isInterestLine (htarget : IsTarget mac) (h : IsInterestLine line mac name) :
    commandOf line = .sendInterest (.send mac name) := by
  obtain ⟨lead, gap, macText, rest, trail, rfl, hlead, hgap, hspace, hmac, hname, hlast,
    htrail⟩ := h
  obtain ⟨hne, htrimmed⟩ := trimmed_command hmac hname hlast
  -- the gap begins with the space that ends the word
  obtain ⟨gap, rfl⟩ : ∃ gap', gap = 32 :: gap' := by
    cases gap with
    | nil => cases hspace
    | cons c gap => exact ⟨gap, by rw [Option.some.inj hspace]⟩
  have hmsg := Trim.trim_of_blanks hlead
    (trimmed_sendInterestWord.append htrimmed (by decide) hne (32 :: gap)) htrail
  have hargs := Trim.trim_of_blanks hgap htrimmed Blank.nil
  rw [List.append_nil] at hargs
  unfold commandOf
  rw [List.append_assoc (sendInterestWord ++ _), hmsg]
  dsimp only
  rw [if_pos (Or.inr ⟨gap ++ (macText ++ rest), by simp⟩), List.append_assoc sendInterestWord,
    List.drop_left]
  exact congrArg SerialCommand.sendInterest
    (interestRequest_eq_send_iff.mpr ⟨htarget, macText, rest, hargs, hmac, hname⟩)

end Lines

/-- **The lines** that make the node send an INTEREST: `send_interest`, the MAC of a single peer
other than zero, and perhaps a name that starts with a slash; with blanks around them. -/
theorem commandOf_eq_send_iff {line : Str} {mac : Mac} {name : Str} :
    commandOf line = .sendInterest (.send mac name) ↔
      IsTarget mac ∧ IsInterestLine line mac name :=
  ⟨isInterestLine_of_commandOf, fun ⟨htarget, h⟩ => commandOf_of_isInterestLine htarget h⟩

/-! ## What is printed reads back

`formatMac` prints upper-case pairs, which are among the texts of a MAC.  A command put together
from it is a line of the grammar, and so is read as it was meant. -/

/-- The pairs of digits of a byte. -/
theorem pairValue_upperHexDigit (b : UInt8) :
    TwoDigits (upperHexDigit (b.toNat / 16), upperHexDigit (b.toNat % 16)) ∧
      pairValue (upperHexDigit (b.toNat / 16), upperHexDigit (b.toNat % 16)) = b := by
  have hdigit : ∀ n : Fin 16, hexDigitValue (upperHexDigit n) = some n.val := by decide
  have hhigh := hdigit ⟨b.toNat / 16, div_lt_sixteen b⟩
  have hlow := hdigit ⟨b.toNat % 16, Nat.mod_lt _ (by decide)⟩
  dsimp only at hhigh hlow
  refine ⟨⟨?_, ?_⟩, ?_⟩
  · unfold IsHexDigit
    rw [hhigh]
    rfl
  · unfold IsHexDigit
    rw [hlow]
    rfl
  · unfold pairValue
    rw [hhigh, hlow]
    show UInt8.ofNat (16 * (b.toNat / 16) + b.toNat % 16) = b
    rw [Nat.div_add_mod, UInt8.ofNat_toNat]

/-- **The MAC that is printed** is read as the same MAC. -/
theorem spellsMac_formatMac (mac : Mac) : SpellsMac (formatMac mac) mac := by
  have htext : 58 :: formatMac mac = colonPairs (mac.toList.map fun b =>
      (upperHexDigit (b.toNat / 16), upperHexDigit (b.toNat % 16))) := by
    obtain ⟨bytes, hbytes⟩ := mac
    cases bytes with
    | nil => cases hbytes
    | cons b bytes => rfl
  refine ⟨_, by simp, fun p hp => ?_, htext, ?_⟩
  · obtain ⟨b, -, rfl⟩ := List.mem_map.mp hp
    exact (pairValue_upperHexDigit b).1
  · rw [List.map_map]
    exact (List.map_id'' (fun b => (pairValue_upperHexDigit b).2) _).symm

/-- **A command that is written** as the help says is read as it was meant. -/
theorem commandOf_written {mac : Mac} (htarget : IsTarget mac) {name : Str}
    (hslash : name.head? = some 47) (hlast : ∀ c ∈ name.getLast?, isSpace c = false) :
    commandOf (sendInterestWord ++ [32] ++ formatMac mac ++ [32] ++ name)
      = .sendInterest (.send mac name) := by
  have hblank : Blank isSpace [32] := List.forall_mem_singleton.mpr rfl
  refine commandOf_of_isInterestLine htarget ⟨[], [32], formatMac mac, [32] ++ name, [], by simp,
    Blank.nil, hblank, rfl, spellsMac_formatMac mac, Or.inr ⟨[32], hblank, by simp, rfl, hslash⟩,
    hlast, Blank.nil⟩

end Icsn
