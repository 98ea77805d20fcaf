import Courseware.Decimal.Binary64
import Courseware.Format
import Courseware.Json.Decoder

/-!
The settings of an export. Every field has a default, so an empty object is a settings document.
-/

namespace Courseware

/-- Whether attempts count towards credit. -/
inductive CreditMode
  | credit
  | noCredit
  deriving DecidableEq, Repr

namespace CreditMode

/-- The name of the mode in documents and launch records. -/
def name : CreditMode → String
  | credit => "credit"
  | noCredit => "no-credit"

def ofName? : String → Option CreditMode
  | "credit" => some credit
  | "no-credit" => some noCredit
  | _ => none

end CreditMode

/-- The version that a settings document asks for by its label. -/
def ScormVersion.ofLabel? : String → Option ScormVersion
  | "1.2" => some v12
  | "2004" => some v2004
  | _ => none

structure ScormSettings where
  /-- The version asked for. The package format decides; another version is worth a warning. -/
  version : Option ScormVersion := none
  /-- The score to pass with, in percent. -/
  passingScore : Nat := 80
  /-- The time limit in minutes. -/
  timeLimit : Option Nat := none
  allowReview : Bool := true
  credit : CreditMode := .credit

/-- The identifiers of activities start with this unless the settings say otherwise. -/
def defaultActivityPrefix : String := "https://courses.example.org/activities"

/-- Settings of xAPI and cmi5 packages. -/
structure XapiSettings where
  activityIdPrefix : String := defaultActivityPrefix
  verboseTracking : Bool := false
  /-- The endpoint that statements go to when the launch names none. -/
  endpoint : Option String := none

structure PackagingSettings where
  compress : Bool := true
  compressionLevel : Nat := 6

structure Settings where
  scorm : ScormSettings := {}
  xapi : XapiSettings := {}
  packaging : PackagingSettings := {}

/-- The passing score in percent, at most one hundred. -/
def ScormSettings.masteryPercent (s : ScormSettings) : Nat :=
  min s.passingScore 100

/-- The passing score as a number between zero and one. -/
def ScormSettings.mastery (s : ScormSettings) : Decimal.Binary64 :=
  .ofPercent s.masteryPercent

/-- What activity identifiers start with: the setting without white space around it and slashes after
it, or the default when nothing is left. -/
def XapiSettings.activityPrefix (s : XapiSettings) : String :=
  let start := Text.trimEndOf '/' (Text.trim s.activityIdPrefix)
  if start.isEmpty then defaultActivityPrefix else start

/-- The compression level, at most nine. -/
def PackagingSettings.level (s : PackagingSettings) : Nat :=
  min s.compressionLevel 9

/-- Whether entries are stored as they are. -/
def PackagingSettings.stored (s : PackagingSettings) : Bool :=
  !s.compress || s.level == 0

namespace Settings

def withPassingScore (s : Settings) (score : Nat) : Settings :=
  { s with scorm := { s.scorm with passingScore := score } }

def withTimeLimit (s : Settings) (minutes : Nat) : Settings :=
  { s with scorm := { s.scorm with timeLimit := some minutes } }

def withActivityPrefix (s : Settings) (start : String) : Settings :=
  { s with xapi := { s.xapi with activityIdPrefix := start } }

def withVerboseTracking (s : Settings) (verbose : Bool) : Settings :=
  { s with xapi := { s.xapi with verboseTracking := verbose } }

def withCompression (s : Settings) (compress : Bool) (level : Nat) : Settings :=
  { s with packaging := ⟨compress, level⟩ }

end Settings

open Json in
def ScormSettings.decoder : Decoder ScormSettings :=
  .record {} [
    .of "version" (.option (.choice ScormVersion.ofLabel?)) fun s v => { s with version := v },
    .of "passingScore" (.natural 8) fun s n => { s with passingScore := n },
    .of "timeLimit" (.option (.natural 32)) fun s n => { s with timeLimit := n },
    .of "allowReview" .bool fun s b => { s with allowReview := b },
    .of "credit" (.choice CreditMode.ofName?) fun s c => { s with credit := c }]

open Json in
/-- Decodes the settings of xAPI and cmi5 packages. -/
def XapiSettings.decoder : Decoder XapiSettings :=
  .record {} [
    .of "activityIdPrefix" .text fun s t => { s with activityIdPrefix := t },
    .of "verboseTracking" .bool fun s b => { s with verboseTracking := b },
    .of "endpoint" (.option .text) fun s t => { s with endpoint := t }]

open Json in
def PackagingSettings.decoder : Decoder PackagingSettings :=
  .record {} [
    .of "compress" .bool fun s b => { s with compress := b },
    .of "compressionLevel" (.natural 32) fun s n => { s with compressionLevel := n }]

open Json in
def Settings.decoder : Decoder Settings :=
  .record {} [
    .of "scorm" ScormSettings.decoder fun s x => { s with scorm := x },
    .of "xapi" XapiSettings.decoder fun s x => { s with xapi := x },
    .of "packaging" PackagingSettings.decoder fun s x => { s with packaging := x }]

end Courseware
