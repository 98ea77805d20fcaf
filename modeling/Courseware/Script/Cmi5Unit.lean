import Courseware.Script.Feedback

/-!
The script of cmi5 packages: it exchanges the launch for a session and reports on the unit.
-/

namespace Courseware.Script

namespace Cmi5Unit

/-- What the script says about itself, its configuration and its states. -/
def head : String := "/*
 * coursepack cmi5 assignable unit runtime.
 *
 * Launch sequence: read the launch parameters, exchange the fetch URL for
 * an auth token, read LMS.LaunchData, then send \"initialized\". Statements
 * issued before that point are queued as (verb, result, object) and only
 * built once the session id and context template are known.
 */
(function (window, document) \x7b
  'use strict';

  var CONFIG = /*@coursepack-config@*/null;
  var COMPLETION_SCROLL_THRESHOLD = 0.9;

  var STATE = \x7b
    UNINITIALIZED: 'uninitialized',
    INITIALIZING: 'initializing',
    READY: 'ready',
    TERMINATED: 'terminated'
  \x7d;

  var XAPI_VERSION = '1.0.3';

"

/-- Reading the launch, identifiers, durations and requests. -/
def support : String := "  function parseLaunch(search) \x7b
    var params = \x7b\x7d;
    var query = (search || '').replace(/^\\?/, '');
    if (!query) \x7b
      return params;
    \x7d
    var pairs = query.split('&');
    for (var i = 0; i < pairs.length; i++) \x7b
      var idx = pairs[i].indexOf('=');
      var key = idx === -1 ? pairs[i] : pairs[i].slice(0, idx);
      var value = idx === -1 ? '' : pairs[i].slice(idx + 1);
      params[decodeURIComponent(key)] = decodeURIComponent(value.replace(/\\+/g, ' '));
    \x7d
    return params;
  \x7d

  function uuid() \x7b
    return 'xxxxxxxx-xxxx-4xxx-yxxx-xxxxxxxxxxxx'.replace(/[xy]/g, function (c) \x7b
      var r = (Math.random() * 16) | 0;
      return (c === 'x' ? r : (r & 0x3) | 0x8).toString(16);
    \x7d);
  \x7d

  function formatDuration(ms) \x7b
    var total = Math.max(0, Math.round(ms / 1000));
    var h = Math.floor(total / 3600);
    var m = Math.floor((total % 3600) / 60);
    var s = total % 60;
    var out = 'PT';
    if (h) \x7b out += h + 'H'; \x7d
    if (m) \x7b out += m + 'M'; \x7d
    if (s || out === 'PT') \x7b out += s + 'S'; \x7d
    return out;
  \x7d

  function request(method, url, headers, body, done) \x7b
    var xhr = new XMLHttpRequest();
    xhr.open(method, url, true);
    for (var name in headers) \x7b
      if (Object.prototype.hasOwnProperty.call(headers, name)) \x7b
        xhr.setRequestHeader(name, headers[name]);
      \x7d
    \x7d
    xhr.onload = function () \x7b
      done(xhr.status >= 200 && xhr.status < 300 ? null : new Error('HTTP ' + xhr.status), xhr.responseText);
    \x7d;
    xhr.onerror = function () \x7b
      done(new Error('network error'), null);
    \x7d;
    xhr.send(body || null);
  \x7d

"

/-- A unit from its launch until it is ready. -/
def start : String := "  function AssignableUnit(settings) \x7b
    this.settings = settings || \x7b\x7d;
    this.state = STATE.UNINITIALIZED;
    this.queue = [];
    this.launch = \x7b\x7d;
    this.token = null;
    this.launchData = \x7b\x7d;
    this.sessionId = null;
    this.startedAt = 0;
    this.answers = \x7b\x7d;
    this.completed = false;
    this.completeWhenReady = false;
    this.judged = false;
  \x7d

  AssignableUnit.prototype.initialize = function () \x7b
    if (this.state !== STATE.UNINITIALIZED) \x7b
      return;
    \x7d
    this.state = STATE.INITIALIZING;
    this.startedAt = Date.now();

    var launch = parseLaunch(window.location.search);
    this.launch = launch;
    this.endpoint = launch.endpoint ? launch.endpoint.replace(/\\/?$/, '/') : null;
    this.activityId = launch.activityId || this.settings.activityId;
    this.registration = launch.registration || null;
    try \x7b
      this.actor = launch.actor ? JSON.parse(launch.actor) : null;
    \x7d catch (err) \x7b
      this.actor = null;
    \x7d

    var self = this;
    if (!this.endpoint || !launch.fetch) \x7b
      // Not launched by an LMS; keep the page usable without reporting.
      this.state = STATE.READY;
      this.queue = [];
      if (this.completeWhenReady) \x7b
        this.complete();
      \x7d
      return;
    \x7d

    request('POST', launch.fetch, \x7b\x7d, null, function (err, text) \x7b
      if (err) \x7b
        self.fail('auth token fetch failed: ' + err.message);
        return;
      \x7d
      try \x7b
        self.token = JSON.parse(text)['auth-token'];
      \x7d catch (parseErr) \x7b
        self.fail('auth token response was not JSON');
        return;
      \x7d
      self.readLaunchData(function () \x7b
        self.sessionId = (self.launchData.contextTemplate &&
          self.launchData.contextTemplate.extensions &&
          self.launchData.contextTemplate.extensions[CONFIG.extensions.sessionId]) || uuid();
        self.state = STATE.READY;
        self.post(self.statement('initialized'));
        var pending = self.queue;
        self.queue = [];
        for (var i = 0; i < pending.length; i++) \x7b
          self.post(self.statement(pending[i].verb, pending[i].result, pending[i].object));
        \x7d
        if (self.completeWhenReady) \x7b
          self.complete();
        \x7d
      \x7d);
    \x7d);
  \x7d;

"

/-- What the host says about the launch. -/
def launchData : String := "  AssignableUnit.prototype.fail = function (message) \x7b
    this.state = STATE.UNINITIALIZED;
    if (window.console) \x7b
      window.console.warn('cmi5: ' + message);
    \x7d
  \x7d;

  AssignableUnit.prototype.headers = function () \x7b
    return \x7b
      'Content-Type': 'application/json',
      'X-Experience-API-Version': XAPI_VERSION,
      Authorization: 'Basic ' + this.token
    \x7d;
  \x7d;

  AssignableUnit.prototype.readLaunchData = function (done) \x7b
    var self = this;
    var url = this.endpoint + 'activities/state' +
      '?stateId=LMS.LaunchData' +
      '&activityId=' + encodeURIComponent(this.activityId) +
      '&agent=' + encodeURIComponent(JSON.stringify(this.actor)) +
      (this.registration ? '&registration=' + encodeURIComponent(this.registration) : '');
    request('GET', url, this.headers(), null, function (err, text) \x7b
      if (!err && text) \x7b
        try \x7b
          self.launchData = JSON.parse(text);
        \x7d catch (parseErr) \x7b
          self.launchData = \x7b\x7d;
        \x7d
      \x7d
      done();
    \x7d);
  \x7d;

"

/-- Making and sending statements. -/
def statements : String := "  AssignableUnit.prototype.statement = function (verbName, result, object) \x7b
    var template = this.launchData.contextTemplate || \x7b\x7d;
    var context = JSON.parse(JSON.stringify(template));
    context.registration = this.registration || undefined;
    context.contextActivities = context.contextActivities || \x7b\x7d;
    context.extensions = context.extensions || \x7b\x7d;
    if (this.sessionId) \x7b
      context.extensions[CONFIG.extensions.sessionId] = this.sessionId;
    \x7d
    if (CONFIG.categorized.indexOf(verbName) !== -1) \x7b
      var category = context.contextActivities.category || [];
      category.push(\x7b id: CONFIG.categories.cmi5 \x7d);
      if (verbName === 'completed' || verbName === 'passed' || verbName === 'failed') \x7b
        category.push(\x7b id: CONFIG.categories.moveOn \x7d);
      \x7d
      context.contextActivities.category = category;
    \x7d

    var display = \x7b\x7d;
    display[CONFIG.language] = verbName;
    var statement = \x7b
      id: uuid(),
      actor: this.actor,
      verb: \x7b id: CONFIG.verbs[verbName], display: display \x7d,
      object: object || \x7b id: this.activityId, objectType: 'Activity' \x7d,
      context: context,
      timestamp: new Date().toISOString()
    \x7d;
    if (result) \x7b
      statement.result = result;
    \x7d
    return statement;
  \x7d;

  AssignableUnit.prototype.send = function (verbName, result, object) \x7b
    if (this.state === STATE.TERMINATED) \x7b
      return;
    \x7d
    if (this.state !== STATE.READY) \x7b
      this.queue.push(\x7b verb: verbName, result: result, object: object \x7d);
      return;
    \x7d
    this.post(this.statement(verbName, result, object));
  \x7d;

  AssignableUnit.prototype.post = function (statement) \x7b
    if (!this.endpoint || !this.token) \x7b
      if (CONFIG.verbose && window.console) \x7b
        window.console.log('cmi5 statement (no LMS):', statement);
      \x7d
      return;
    \x7d
    request('POST', this.endpoint + 'statements', this.headers(), JSON.stringify(statement), function (err) \x7b
      if (err && window.console) \x7b
        window.console.warn('cmi5 statement was not delivered: ' + err.message);
      \x7d
    \x7d);
  \x7d;

"

/-- Scores and answers. -/
def scores : String := "  AssignableUnit.prototype.masteryScore = function () \x7b
    if (typeof this.launchData.masteryScore === 'number') \x7b
      return this.launchData.masteryScore;
    \x7d
    return typeof this.settings.masteryScore === 'number' ? this.settings.masteryScore : null;
  \x7d;

  AssignableUnit.prototype.scaledScore = function () \x7b
    var ids = Object.keys(this.answers);
    if (ids.length === 0) \x7b
      return null;
    \x7d
    var correct = 0;
    for (var i = 0; i < ids.length; i++) \x7b
      if (this.answers[ids[i]]) \x7b
        correct += 1;
      \x7d
    \x7d
    return correct / ids.length;
  \x7d;

  AssignableUnit.prototype.recordAnswer = function (questionId, response, correct) \x7b
    this.answers[questionId] = correct;
    var object = \x7b
      id: this.activityId + '/interactions/' + encodeURIComponent(questionId),
      objectType: 'Activity',
      definition: \x7b type: CONFIG.activityTypes.interaction \x7d
    \x7d;
    this.send('answered', \x7b response: String(response), success: !!correct \x7d, object);
  \x7d;

  AssignableUnit.prototype.reportScroll = function (ratio) \x7b
    if (ratio >= COMPLETION_SCROLL_THRESHOLD) \x7b
      this.complete();
    \x7d
  \x7d;

"

/-- When a unit is completed and how it ends. -/
def completion : String := "  AssignableUnit.prototype.complete = function () \x7b
    if (this.completed || this.launch.launchMode === 'Browse' || this.launch.launchMode === 'Review') \x7b
      return;
    \x7d
    // The LMS mastery score is only known after LMS.LaunchData is read.
    if (this.state !== STATE.READY) \x7b
      this.completeWhenReady = true;
      return;
    \x7d
    this.completed = true;
    this.send('completed', \x7b
      completion: true,
      duration: formatDuration(Date.now() - this.startedAt)
    \x7d);

    var mastery = this.masteryScore();
    var scaled = this.scaledScore();
    if (mastery !== null && scaled !== null && !this.judged) \x7b
      this.judged = true;
      var passed = scaled >= mastery;
      this.send(passed ? 'passed' : 'failed', \x7b
        success: passed,
        score: \x7b scaled: scaled \x7d,
        duration: formatDuration(Date.now() - this.startedAt)
      \x7d);
    \x7d
  \x7d;

  AssignableUnit.prototype.terminate = function () \x7b
    if (this.state !== STATE.READY) \x7b
      return;
    \x7d
    this.post(this.statement('terminated', \x7b duration: formatDuration(Date.now() - this.startedAt) \x7d));
    this.state = STATE.TERMINATED;
  \x7d;

  AssignableUnit.prototype.exit = function () \x7b
    this.terminate();
    if (this.launchData.returnURL) \x7b
      window.location.href = this.launchData.returnURL;
    \x7d
  \x7d;

"

/-- What the page calls. -/
def wiring : String := "  function scrollRatio() \x7b
    var doc = document.documentElement;
    var height = Math.max(doc.scrollHeight, document.body ? document.body.scrollHeight : 0);
    var viewport = window.innerHeight || doc.clientHeight;
    if (height <= viewport) \x7b
      return 1;
    \x7d
    return (window.pageYOffset + viewport) / height;
  \x7d

  // --- Wiring --------------------------------------------------------------

  var au = new AssignableUnit(window.COURSEPACK_LAUNCH);
  window.CoursePackCmi5 = au;

  window.cmi5RecordAnswer = function (questionId, response, correct, el) \x7b
    var result = evaluate(el, response, correct);
    au.recordAnswer(questionId, response, result);
    showFeedback(el, result);
    return result;
  \x7d;

  window.cmi5Exit = function () \x7b
    au.exit();
  \x7d;

  window.addEventListener('load', function () \x7b
    au.initialize();
    au.reportScroll(scrollRatio());
  \x7d);
  window.addEventListener('scroll', function () \x7b au.reportScroll(scrollRatio()); \x7d);
  window.addEventListener('pagehide', function () \x7b au.terminate(); \x7d);
\x7d)(window, document);
"

end Cmi5Unit

/-- The script that keeps a cmi5 session. -/
def cmi5Unit : Template where
  name := "cmi5-au.js"
  source :=
    Cmi5Unit.head ++ Cmi5Unit.support ++ Cmi5Unit.start ++ Cmi5Unit.launchData ++
      Cmi5Unit.statements ++ Cmi5Unit.scores ++ Cmi5Unit.completion ++ answerChecks ++
      answerFeedback ++ Cmi5Unit.wiring

end Courseware.Script
