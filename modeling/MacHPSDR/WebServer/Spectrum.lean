import MacHPSDR.Foundations.Transition
import Mathlib

/-!
# Spectrum rows and audio to one client

The part of a web client that decides how many bins and how many rows a second it is sent, for each
receiver, and at which bitrate its audio runs. `spectrum_subscribe` asks for a profile; the sender
thread of the client goes down from it when the link does not keep up and back up when it has been
healthy for ten seconds; a lossy audio report asks the display to go down first.

Every critical section of `queue_mutex` is one step, so that the requests (the client's thread), the
rows (the audio thread) and the sender thread interleave. Readings of the clock come with the step;
the sender takes its own before it waits, so they need not be in order.
-/

namespace MacHPSDR.WebServer

/-- `MAX_RECEIVERS` -/
abbrev maxReceivers : ℕ := 8

/-- `WEB_RECOVERY_US` -/
def webRecoveryUs : ℤ := 10000000

/-! ## Profiles -/

/-- `WEB_SPECTRUM_PROFILE`, as a request names it. -/
inductive SpectrumProfile
  | low | balanced | high | ultra
  deriving DecidableEq

/-- The number of a profile. -/
def SpectrumProfile.val : SpectrumProfile → ℤ
  | .low => 0
  | .balanced => 1
  | .high => 2
  | .ultra => 3

/-- `WEB_SPECTRUM_LIMITS` -/
structure SpectrumLimits where
  bins : ℕ
  fps : ℕ
  deriving DecidableEq

/-- The index of a profile in a table of four: a number out of range is brought into it. -/
def profileIndex (profile : ℤ) : ℕ :=
  let profile := if profile < SpectrumProfile.low.val then SpectrumProfile.low.val else profile
  let profile := if profile > SpectrumProfile.ultra.val then SpectrumProfile.ultra.val else profile
  profile.toNat

/-- `web_spectrum_profile_limits` -/
def webSpectrumProfileLimits (profile : ℤ) : SpectrumLimits :=
  [⟨256, 5⟩, ⟨512, 10⟩, ⟨1024, 15⟩, ⟨2048, 30⟩].getD (profileIndex profile) ⟨0, 0⟩

/-! ## The audio bitrate -/

/-- `WEB_AUDIO_RATE` -/
structure AudioRate where
  bitrate : ℕ
  target : ℕ
  fecLoss : ℕ
  healthySinceUs : ℤ
  deriving DecidableEq

/-- `web_audio_rate_target` -/
def webAudioRateTarget (profile : ℤ) : ℕ :=
  [16000, 24000, 48000, 64000].getD (profileIndex profile) 0

/-- `web_audio_rate_reset` -/
def webAudioRateReset (profile : ℤ) (nowUs : ℤ) : AudioRate where
  bitrate := webAudioRateTarget profile
  target := webAudioRateTarget profile
  fecLoss := 10
  healthySinceUs := nowUs

/-- The bitrates of `web_audio_rate_report`. -/
def audioLadder : List ℕ := [16000, 24000, 32000, 48000, 64000]

/-- `web_audio_rate_report`: whether the link is congested. -/
def webAudioRateReport (r : AudioRate) (lossPercent : ℕ) (displayAtLow : Bool) (nowUs : ℤ) :
    AudioRate × Bool :=
  let r := { r with
    fecLoss := if lossPercent > 25 then 25 else if lossPercent < 2 then 2 else lossPercent }
  if lossPercent ≥ 5 then
    let r := { r with healthySinceUs := nowUs }
    if displayAtLow then
      ({ r with bitrate := (audioLadder.reverse.find? (· < r.bitrate)).getD r.bitrate }, true)
    else (r, true)
  else if lossPercent > 2 then ({ r with healthySinceUs := nowUs }, false)
  else if r.bitrate < r.target ∧ nowUs - r.healthySinceUs ≥ 10 * 1000000 then
    ({ r with
      bitrate := ((audioLadder.find? (r.bitrate < ·)).map (min · r.target)).getD r.bitrate
      healthySinceUs := nowUs }, false)
  else (r, false)

/-! ## The client -/

/-- What a client keeps for one receiver. -/
structure Display where
  subscribed : Bool
  desired : ℤ
  effective : ℤ
  effectiveBins : ℕ
  effectiveFps : ℕ
  nextOfferUs : ℤ
  healthySinceUs : ℤ
  /-- A `guint`. -/
  pressure : ℕ
  /-- A row waits for the sender. -/
  pending : Bool
  deriving DecidableEq

/-- A receiver of a client that has just connected. -/
def Display.connected (nowUs : ℤ) : Display where
  subscribed := false
  desired := SpectrumProfile.balanced.val
  effective := SpectrumProfile.balanced.val
  effectiveBins := 512
  effectiveFps := 10
  nextOfferUs := 0
  healthySinceUs := nowUs
  pressure := 0
  pending := false

namespace Display

/-- `pressure++` -/
def press (d : Display) : Display := { d with pressure := (d.pressure + 1) % 2 ^ 32 }

/-- `spectrum_subscribe`. -/
def subscribe (profile : SpectrumProfile) (nowUs : ℤ) (d : Display) : Display :=
  let selected := webSpectrumProfileLimits profile.val
  { d with
    subscribed := true
    desired := profile.val
    effective := profile.val
    effectiveBins := selected.bins
    effectiveFps := selected.fps
    pressure := 0
    healthySinceUs := nowUs }

/-- `audio_feedback`: the audio is congested, or has just been given more. -/
def feedback (congested raised : Bool) (nowUs : ℤ) (d : Display) : Display :=
  let d := if congested then { d with pressure := 3, healthySinceUs := nowUs } else d
  if raised then { d with healthySinceUs := nowUs } else d

/-- The end of a row: it was too old or the link took it slowly (`slow`), or all was well. -/
def rowSent (slow : Bool) (d : Display) : Display :=
  if slow then d.press else if d.pressure > 0 then { d with pressure := d.pressure - 1 } else d

/-- The sender takes the row, and first adjusts the quality. `audioOk` says that the audio does not
have to get its bitrate back before. -/
def adjust (audioOk : Bool) (nowUs : ℤ) (d : Display) : Display :=
  if d.pressure ≥ 3 ∧ d.effective > SpectrumProfile.low.val then
    let lower := webSpectrumProfileLimits (d.effective - 1)
    let d := if d.effectiveFps > lower.fps then { d with effectiveFps := lower.fps }
      else { d with effectiveBins := lower.bins, effective := d.effective - 1 }
    { d with pressure := 0, healthySinceUs := nowUs }
  else if d.pressure = 0 ∧ nowUs - d.healthySinceUs ≥ webRecoveryUs ∧ audioOk then
    let wanted := webSpectrumProfileLimits d.desired
    if d.effectiveBins < wanted.bins then
      { d with
        effective := d.effective + 1
        effectiveBins := (webSpectrumProfileLimits (d.effective + 1)).bins
        healthySinceUs := nowUs }
    else if d.effectiveFps < wanted.fps then
      { d with
        effectiveFps := (webSpectrumProfileLimits d.effective).fps
        healthySinceUs := nowUs }
    else d
  else d

/-- `web_server_publish_spectrum` for one client. -/
def publish (nowUs : ℤ) (d : Display) : Display :=
  if d.subscribed ∧ nowUs ≥ d.nextOfferUs then
    let replacing := d.pending
    let d := { d with nextOfferUs := nowUs + 1000000 / d.effectiveFps, pending := true }
    if replacing then d.press else d
  else d

end Display

/-- The receivers and the audio session of a client. -/
structure SpectrumClient where
  display : Fin maxReceivers → Display
  /-- There is an audio session. -/
  rtc : Bool
  rtcRx : Option (Fin maxReceivers)
  audioRate : AudioRate
  /-- The client's thread is starting audio for this receiver, and `rtc_rx` says so already. -/
  starting : Option (Fin maxReceivers × Bool)
  /-- The sender thread is sending a row of this receiver. -/
  sending : Option (Fin maxReceivers)

namespace SpectrumClient

def setDisplay (s : SpectrumClient) (rx : Fin maxReceivers) (d : Display) : SpectrumClient :=
  { s with display := Function.update s.display rx d }

/-- Audio runs for this receiver. -/
def hasAudio (s : SpectrumClient) (rx : Fin maxReceivers) : Bool :=
  s.rtc && decide (s.rtcRx = some rx)

/-- The audio does not hold the display back. -/
def audioOk (s : SpectrumClient) (rx : Fin maxReceivers) : Bool :=
  !s.rtc || decide (s.rtcRx ≠ some rx) || decide (s.audioRate.bitrate ≥ s.audioRate.target)

/-- The first receiver that has a row waiting. -/
def firstPending (s : SpectrumClient) : Option (Fin maxReceivers) :=
  (List.finRange maxReceivers).find? fun rx => (s.display rx).pending

end SpectrumClient

/-- The critical sections. A request for a receiver that is not visible changes nothing. -/
inductive SpectrumEvent
  | spectrumSubscribe (rx : Fin maxReceivers) (visible : Bool) (profile : SpectrumProfile)
    (nowUs : ℤ)
  | spectrumUnsubscribe (rx : Fin maxReceivers) (visible : Bool)
  | audioFeedback (rx : Fin maxReceivers) (lossPercent : ℕ) (nowUs : ℤ)
  /-- `audio_subscribe` tears the session down that there is, -/
  | audioSubscribe (rx : Fin maxReceivers) (visible : Bool)
  /-- sets `rtc_rx`, -/
  | audioReceiver
  /-- and has a new session, or not. -/
  | audioOffer (ok : Bool) (nowUs : ℤ)
  | audioUnsubscribe (visible : Bool)
  /-- A row of a receiver. -/
  | publish (rx : Fin maxReceivers) (nowUs : ℤ)
  /-- `web_sender_thread` takes a row, -/
  | take (nowUs : ℤ)
  /-- has no frame to send, -/
  | skip
  /-- or is done with it. -/
  | sent (slow : Bool)
  deriving DecidableEq

def SpectrumClient.step (s : SpectrumClient) : SpectrumEvent → Option SpectrumClient
  | .spectrumSubscribe rx visible profile nowUs =>
    if s.starting.isSome then none
    else if !visible then some s
    else
      let s := s.setDisplay rx ((s.display rx).subscribe profile nowUs)
      some (if s.hasAudio rx then
        { s with audioRate := webAudioRateReset profile.val nowUs } else s)
  | .spectrumUnsubscribe rx visible =>
    if s.starting.isSome then none
    else if !visible then some s
    else some (s.setDisplay rx { s.display rx with subscribed := false, pending := false })
  | .audioFeedback rx lossPercent nowUs =>
    if s.starting.isSome then none
    else if s.hasAudio rx then
      let d := s.display rx
      let atLow := !d.subscribed || decide (d.effective = SpectrumProfile.low.val)
      let before := s.audioRate.bitrate
      let r := webAudioRateReport s.audioRate lossPercent atLow nowUs
      some { s.setDisplay rx (d.feedback r.2 (decide (r.1.bitrate > before)) nowUs) with
        audioRate := r.1 }
    else some s
  | .audioSubscribe rx visible =>
    if s.starting.isSome then none
    else if !visible then some s
    else some { s with rtc := false, starting := some (rx, false) }
  | .audioReceiver =>
    match s.starting with
    | some (rx, false) => some { s with rtcRx := some rx, starting := some (rx, true) }
    | _ => none
  | .audioOffer ok nowUs =>
    match s.starting with
    | some (rx, true) =>
      if ok then
        let d := s.display rx
        some { s with
          audioRate := webAudioRateReset
            (if d.subscribed then d.desired else SpectrumProfile.balanced.val) nowUs
          rtc := true
          starting := none }
      else some { s with starting := none }
    | _ => none
  | .audioUnsubscribe visible =>
    if s.starting.isSome then none
    else if !visible then some s
    else some { s with rtc := false }
  | .publish rx nowUs => some (s.setDisplay rx ((s.display rx).publish nowUs))
  | .take nowUs =>
    if s.sending.isSome then none
    else
      s.firstPending.map fun rx =>
        let d := { s.display rx with pending := false }
        { s.setDisplay rx (d.adjust (s.audioOk rx) nowUs) with sending := some rx }
  | .skip => s.sending.map fun _ => { s with sending := none }
  | .sent slow =>
    s.sending.map fun rx =>
      { s.setDisplay rx ((s.display rx).rowSent slow) with sending := none }

/-- A client that has connected; its slot may hold the bitrate of the one before. -/
def spectrumClient (audioRate : AudioRate) (nowUs : ℤ) : System SpectrumClient SpectrumEvent where
  init := ⟨fun _ => .connected nowUs, false, none, audioRate, none, none⟩
  step := SpectrumClient.step

end MacHPSDR.WebServer
