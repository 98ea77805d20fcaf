import Courseware.Script.Feedback

/-!
The script of SCORM packages: it talks to the host from the launcher page and from the content page in
its frame.
-/

namespace Courseware.Script

namespace ScormApi

/-- What the script says about itself, its configuration and its states. -/
def head : String := "/*
 * coursepack SCORM runtime.
 *
 * Loaded twice per lesson: by the launcher page (which owns the LMS session)
 * and by the content page inside the launcher's frame (which forwards answers
 * and scroll progress to the launcher).
 */
(function (window, document) \x7b
  'use strict';

  var CONFIG = /*@coursepack-config@*/null;
  var COMPLETION_SCROLL_THRESHOLD = 0.9;
  var MAX_PARENT_DEPTH = 7;

  var STATE = \x7b
    UNINITIALIZED: 'uninitialized',
    INITIALIZING: 'initializing',
    READY: 'ready',
    TERMINATED: 'terminated'
  \x7d;

"

/-- The names of calls and elements in either version. -/
def names : String := "  var is2004 = CONFIG.version === '2004';
  var apiName = is2004 ? 'API_1484_11' : 'API';

  var CALLS = is2004 ? \x7b
    initialize: 'Initialize',
    terminate: 'Terminate',
    getValue: 'GetValue',
    setValue: 'SetValue',
    commit: 'Commit',
    lastError: 'GetLastError'
  \x7d : \x7b
    initialize: 'LMSInitialize',
    terminate: 'LMSFinish',
    getValue: 'LMSGetValue',
    setValue: 'LMSSetValue',
    commit: 'LMSCommit',
    lastError: 'LMSGetLastError'
  \x7d;

  var CMI = is2004 ? \x7b
    completion: 'cmi.completion_status',
    success: 'cmi.success_status',
    scoreRaw: 'cmi.score.raw',
    scoreMin: 'cmi.score.min',
    scoreMax: 'cmi.score.max',
    scoreScaled: 'cmi.score.scaled',
    sessionTime: 'cmi.session_time',
    exit: 'cmi.exit',
    interactionCount: 'cmi.interactions._count',
    response: 'learner_response',
    wrong: 'incorrect'
  \x7d : \x7b
    completion: 'cmi.core.lesson_status',
    success: null,
    scoreRaw: 'cmi.core.score.raw',
    scoreMin: 'cmi.core.score.min',
    scoreMax: 'cmi.core.score.max',
    scoreScaled: null,
    sessionTime: 'cmi.core.session_time',
    exit: 'cmi.core.exit',
    interactionCount: 'cmi.interactions._count',
    response: 'student_response',
    wrong: 'wrong'
  \x7d;

"

/-- The search for the host. -/
def discovery : String := "  // --- API discovery -------------------------------------------------------

  function searchChain(win) \x7b
    var depth = 0;
    while (win && !win[apiName] && win.parent && win.parent !== win && depth < MAX_PARENT_DEPTH) \x7b
      depth += 1;
      win = win.parent;
    \x7d
    return win && win[apiName] ? win[apiName] : null;
  \x7d

  function findAPI() \x7b
    var api = searchChain(window);
    if (!api && window.opener) \x7b
      api = searchChain(window.opener);
    \x7d
    if (!api && window.top && window.top.opener) \x7b
      api = searchChain(window.top.opener);
    \x7d
    return api;
  \x7d

"

/-- Times as the host takes them. -/
def times : String := "  // --- Time formatting -----------------------------------------------------

  function pad(n) \x7b
    return n < 10 ? '0' + n : String(n);
  \x7d

  function formatSessionTime(ms) \x7b
    var total = Math.round(ms / 1000);
    var h = Math.floor(total / 3600);
    var m = Math.floor((total % 3600) / 60);
    var s = total % 60;
    if (is2004) \x7b
      return 'PT' + h + 'H' + m + 'M' + s + 'S';
    \x7d
    return (h < 10 ? '000' + h : h < 100 ? '00' + h : h < 1000 ? '0' + h : String(h)) + ':' + pad(m) + ':' + pad(s);
  \x7d

"

/-- A session from its start until the host is ready. -/
def session : String := "  // --- Session (launcher side) ---------------------------------------------

  function Session(settings) \x7b
    this.settings = settings || \x7b\x7d;
    this.state = STATE.UNINITIALIZED;
    this.api = null;
    this.startedAt = 0;
    this.answers = \x7b\x7d;
    this.pending = [];
    this.interactionIndex = 0;
    this.completable = false;
    this.completed = false;
  \x7d

  Session.prototype.call = function (name, a, b) \x7b
    if (!this.api) \x7b
      return '';
    \x7d
    try \x7b
      return String(this.api[CALLS[name]](a === undefined ? '' : a, b));
    \x7d catch (err) \x7b
      if (window.console) \x7b
        window.console.warn('SCORM call failed:', name, err);
      \x7d
      return '';
    \x7d
  \x7d;

  Session.prototype.initialize = function () \x7b
    if (this.state !== STATE.UNINITIALIZED) \x7b
      return this.state === STATE.READY;
    \x7d
    this.state = STATE.INITIALIZING;
    this.api = findAPI();
    this.startedAt = Date.now();

    if (!this.api) \x7b
      // No LMS: keep working locally so the content is still usable.
      this.state = STATE.READY;
      this.catchUp();
      return true;
    \x7d

    if (this.call('initialize') !== 'true') \x7b
      this.state = STATE.UNINITIALIZED;
      return false;
    \x7d
    this.state = STATE.READY;

    var status = this.getValue(CMI.completion);
    if (status === '' || status === 'not attempted' || status === 'unknown') \x7b
      this.setValue(CMI.completion, 'incomplete');
    \x7d
    this.setValue(CMI.scoreMin, '0');
    this.setValue(CMI.scoreMax, '100');
    this.call('commit');
    this.catchUp();
    return true;
  \x7d;

  // The content frame usually finishes loading before the launcher, so
  // answers and scroll reports can arrive while the session is still
  // starting up. Replay them once it is ready.
  Session.prototype.catchUp = function () \x7b
    var pending = this.pending;
    this.pending = [];
    for (var i = 0; i < pending.length; i++) \x7b
      this.writeInteraction(pending[i][0], pending[i][1], pending[i][2]);
    \x7d
    this.maybeComplete();
  \x7d;

"

/-- Values, scores and answers. -/
def scores : String := "  Session.prototype.getValue = function (element) \x7b
    if (this.state !== STATE.READY || !element) \x7b
      return '';
    \x7d
    return this.call('getValue', element);
  \x7d;

  Session.prototype.setValue = function (element, value) \x7b
    if (this.state !== STATE.READY || !element) \x7b
      return false;
    \x7d
    return this.call('setValue', element, String(value)) === 'true';
  \x7d;

  Session.prototype.score = function () \x7b
    var ids = Object.keys(this.answers);
    if (ids.length === 0) \x7b
      return null;
    \x7d
    var correct = 0;
    for (var i = 0; i < ids.length; i++) \x7b
      if (this.answers[ids[i]]) \x7b
        correct += 1;
      \x7d
    \x7d
    return Math.round((correct / ids.length) * 100);
  \x7d;

  Session.prototype.recordInteraction = function (questionId, response, correct) \x7b
    this.answers[questionId] = correct;
    if (this.state === STATE.UNINITIALIZED || this.state === STATE.INITIALIZING) \x7b
      this.pending.push([questionId, response, correct]);
      return;
    \x7d
    if (this.state !== STATE.READY) \x7b
      return;
    \x7d
    this.writeInteraction(questionId, response, correct);
    this.maybeComplete();
  \x7d;

  Session.prototype.writeInteraction = function (questionId, response, correct) \x7b
    var count = parseInt(this.getValue(CMI.interactionCount), 10);
    var n = isNaN(count) ? this.interactionIndex : count;
    this.interactionIndex = n + 1;
    var prefix = 'cmi.interactions.' + n + '.';
    this.setValue(prefix + 'id', questionId);
    this.setValue(prefix + 'type', typeof response === 'number' ? 'choice' : 'fill-in');
    this.setValue(prefix + CMI.response, response);
    this.setValue(prefix + 'result', correct ? 'correct' : CMI.wrong);

    var score = this.score();
    if (score !== null) \x7b
      this.setValue(CMI.scoreRaw, score);
      if (CMI.scoreScaled) \x7b
        this.setValue(CMI.scoreScaled, score / 100);
      \x7d
    \x7d
    this.call('commit');
  \x7d;

"

/-- When a lesson is completed and how a session ends. -/
def completion : String := "  Session.prototype.reportScroll = function (ratio) \x7b
    if (ratio >= COMPLETION_SCROLL_THRESHOLD) \x7b
      this.completable = true;
      this.maybeComplete();
    \x7d
  \x7d;

  Session.prototype.maybeComplete = function () \x7b
    if (!this.completable || this.completed || this.state !== STATE.READY) \x7b
      return;
    \x7d
    this.completed = true;

    var score = this.score();
    var passing = typeof this.settings.passingScore === 'number' ? this.settings.passingScore : 0;
    if (is2004) \x7b
      this.setValue(CMI.completion, 'completed');
      if (score !== null) \x7b
        this.setValue(CMI.success, score >= passing ? 'passed' : 'failed');
      \x7d
    \x7d else if (score !== null) \x7b
      this.setValue(CMI.completion, score >= passing ? 'passed' : 'failed');
    \x7d else \x7b
      this.setValue(CMI.completion, 'completed');
    \x7d
    this.call('commit');
  \x7d;

  Session.prototype.terminate = function () \x7b
    if (this.state !== STATE.READY) \x7b
      return;
    \x7d
    this.setValue(CMI.sessionTime, formatSessionTime(Date.now() - this.startedAt));
    this.setValue(CMI.exit, this.completed ? (is2004 ? 'normal' : '') : 'suspend');
    this.call('commit');
    this.call('terminate');
    this.state = STATE.TERMINATED;
  \x7d;

"

/-- What the two pages call. -/
def wiring : String := "  // --- Wiring --------------------------------------------------------------

  function scrollRatio(win) \x7b
    var doc = win.document.documentElement;
    var body = win.document.body;
    var height = Math.max(doc.scrollHeight, body ? body.scrollHeight : 0);
    var viewport = win.innerHeight || doc.clientHeight;
    if (height <= viewport) \x7b
      return 1;
    \x7d
    return (win.pageYOffset + viewport) / height;
  \x7d

  var launcher = null;
  try \x7b
    launcher = window.parent !== window ? window.parent.CoursePackScorm || null : null;
  \x7d catch (err) \x7b
    launcher = null;
  \x7d

  if (window.COURSEPACK_LAUNCH) \x7b
    var session = new Session(window.COURSEPACK_LAUNCH);
    window.CoursePackScorm = session;

    window.recordInteraction = function (questionId, response, correct, el) \x7b
      var result = evaluate(el, response, correct);
      session.recordInteraction(questionId, response, result);
      showFeedback(el, result);
      return result;
    \x7d;

    window.addEventListener('load', function () \x7b
      session.initialize();
      var limit = session.settings.timeLimitSeconds;
      if (typeof limit === 'number' && limit > 0) \x7b
        window.setTimeout(function () \x7b
          session.terminate();
          window.alert('The time allowed for this lesson has ended.');
        \x7d, limit * 1000);
      \x7d
    \x7d);
    window.addEventListener('pagehide', function () \x7b session.terminate(); \x7d);
    window.addEventListener('beforeunload', function () \x7b session.terminate(); \x7d);
  \x7d else if (launcher) \x7b
    window.recordInteraction = function (questionId, response, correct, el) \x7b
      var result = evaluate(el, response, correct);
      launcher.recordInteraction(questionId, response, result);
      showFeedback(el, result);
      return result;
    \x7d;

    var report = function () \x7b launcher.reportScroll(scrollRatio(window)); \x7d;
    window.addEventListener('scroll', report);
    window.addEventListener('load', report);
  \x7d else \x7b
    // Opened outside a launcher: feedback only.
    window.recordInteraction = function (questionId, response, correct, el) \x7b
      var result = evaluate(el, response, correct);
      showFeedback(el, result);
      return result;
    \x7d;
  \x7d
\x7d)(window, document);
"

end ScormApi

/-- The script that keeps a SCORM session. -/
def scormApi : Template where
  name := "scorm-api.js"
  source :=
    ScormApi.head ++ ScormApi.names ++ ScormApi.discovery ++ answerChecks ++
      answerFeedback ++ ScormApi.times ++ ScormApi.session ++ ScormApi.scores ++
      ScormApi.completion ++ ScormApi.wiring

end Courseware.Script
