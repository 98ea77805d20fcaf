import Courseware.Script.Feedback

/-!
The script of xAPI packages: it reads the launch, keeps the session and queues statements.
-/

namespace Courseware.Script

namespace XapiWrapper

/-- What the script says about itself, its configuration and its states. -/
def head : String := "/*
 * coursepack xAPI runtime.
 *
 * Reads LRS connection details from the launch query string, sends the
 * course lifecycle statements, and tracks lesson views and answers.
 * The launch is kept in sessionStorage so lesson pages opened from the index
 * report to the same LRS. Statements produced before the session is ready,
 * or that the LRS did not accept, are queued and retried.
 */
(function (window, document) \x7b
  'use strict';

  var CONFIG = /*@coursepack-config@*/null;

  var STATE = \x7b
    UNINITIALIZED: 'uninitialized',
    INITIALIZING: 'initializing',
    READY: 'ready',
    TERMINATED: 'terminated'
  \x7d;

"

/-- Verbs, reading the launch, durations and identifiers. -/
def support : String := "  function verb(name) \x7b
    var iri = CONFIG.verbs[name];
    var display = \x7b\x7d;
    display[CONFIG.language] = name;
    return \x7b id: iri, display: display \x7d;
  \x7d

  function parseLaunch(search) \x7b
    var params = \x7b\x7d;
    var query = (search || '').replace(/^\\?/, '');
    if (!query) \x7b
      return params;
    \x7d
    var pairs = query.split('&');
    for (var i = 0; i < pairs.length; i++) \x7b
      var idx = pairs[i].indexOf('=');
      var key = idx === -1 ? pairs[i] : pairs[i].slice(0, idx);
      var value = idx === -1 ? '' : pairs[i].slice(idx + 1);
      params[decodeURIComponent(key)] = decodeURIComponent(value.replace(/\\+/g, ' '));
    \x7d
    return params;
  \x7d

  function readActor(raw) \x7b
    if (!raw) \x7b
      return null;
    \x7d
    try \x7b
      var actor = JSON.parse(raw);
      // Some LMSs send arrays for the IFI fields.
      if (actor.mbox && actor.mbox.length && typeof actor.mbox !== 'string') \x7b
        actor.mbox = actor.mbox[0];
      \x7d
      if (actor.name && typeof actor.name !== 'string') \x7b
        actor.name = actor.name[0];
      \x7d
      return actor;
    \x7d catch (err) \x7b
      return null;
    \x7d
  \x7d

  function formatDuration(ms) \x7b
    var total = Math.max(0, Math.round(ms / 1000));
    var h = Math.floor(total / 3600);
    var m = Math.floor((total % 3600) / 60);
    var s = total % 60;
    var out = 'PT';
    if (h) \x7b out += h + 'H'; \x7d
    if (m) \x7b out += m + 'M'; \x7d
    if (s || out === 'PT') \x7b out += s + 'S'; \x7d
    return out;
  \x7d

  function uuid() \x7b
    return 'xxxxxxxx-xxxx-4xxx-yxxx-xxxxxxxxxxxx'.replace(/[xy]/g, function (c) \x7b
      var r = (Math.random() * 16) | 0;
      return (c === 'x' ? r : (r & 0x3) | 0x8).toString(16);
    \x7d);
  \x7d

"

/-- What the browser keeps between the pages. -/
def storage : String := "  function storageKey(name) \x7b
    return 'coursepack:' + CONFIG.courseActivityId + ':' + name;
  \x7d

  function readStored(name) \x7b
    try \x7b
      var raw = window.sessionStorage.getItem(storageKey(name));
      return raw ? JSON.parse(raw) : null;
    \x7d catch (err) \x7b
      return null;
    \x7d
  \x7d

  function writeStored(name, value) \x7b
    try \x7b
      if (value === null) \x7b
        window.sessionStorage.removeItem(storageKey(name));
      \x7d else \x7b
        window.sessionStorage.setItem(storageKey(name), JSON.stringify(value));
      \x7d
    \x7d catch (err) \x7b
      // Storage disabled: state lives only as long as this page.
    \x7d
  \x7d

  function sessionFlag(name) \x7b
    if (readStored(name)) \x7b
      return true;
    \x7d
    writeStored(name, true);
    return false;
  \x7d

"

/-- The launch that all pages share. -/
def links : String := "  // Launch parameters from the query string win; a page opened without them
  // falls back to the launch recorded by an earlier page of this course.
  function resolveLaunch(search) \x7b
    var launch = parseLaunch(search);
    if (launch.endpoint) \x7b
      writeStored('launch', launch);
      return launch;
    \x7d
    return readStored('launch') || launch;
  \x7d

  function isPackagePage(href) \x7b
    return !!href && href.charAt(0) !== '/' && href.indexOf(':') === -1 &&
      href.indexOf('?') === -1 && /\\.html(#|$)/.test(href);
  \x7d

  // Carry the launch query string on links to other pages of the package.
  function propagateLaunch(search) \x7b
    if (!search || search === '?') \x7b
      return;
    \x7d
    var links = document.querySelectorAll('a[href]');
    for (var i = 0; i < links.length; i++) \x7b
      var href = links[i].getAttribute('href');
      if (!isPackagePage(href)) \x7b
        continue;
      \x7d
      var hash = href.indexOf('#');
      var path = hash === -1 ? href : href.slice(0, hash);
      var fragment = hash === -1 ? '' : href.slice(hash);
      links[i].setAttribute('href', path + search + fragment);
    \x7d
  \x7d

"

/-- The session from its launch until it is ready. -/
def start : String := "  function Tracker() \x7b
    this.state = STATE.UNINITIALIZED;
    this.queue = [];
    this.failed = [];
    this.unsettled = \x7b\x7d;
    this.endpoint = null;
    this.auth = null;
    this.actor = null;
    this.registration = null;
    this.startedAt = 0;
    this.activity = \x7b
      id: CONFIG.courseActivityId,
      definition: \x7b type: CONFIG.activityTypes.course \x7d
    \x7d;
  \x7d

  Tracker.prototype.initialize = function () \x7b
    if (this.state !== STATE.UNINITIALIZED) \x7b
      return;
    \x7d
    this.state = STATE.INITIALIZING;

    var launch = resolveLaunch(window.location.search);
    var endpoint = launch.endpoint || CONFIG.endpoint;
    this.endpoint = endpoint ? endpoint.replace(/\\/?$/, '/') : null;
    this.auth = launch.auth || null;
    this.actor = readActor(launch.actor);
    this.registration = launch.registration || null;
    if (launch.activity_id) \x7b
      this.activity.id = launch.activity_id;
    \x7d
    this.startedAt = Date.now();
    this.state = STATE.READY;

    // Undelivered statements from earlier pages go first, then
    // \"initialized\" (once per browser session), then anything queued
    // during startup.
    this.failed = readStored('outbox') || [];
    var pending = this.queue;
    this.queue = [];
    if (!sessionFlag('initialized')) \x7b
      pending.unshift(this.build('initialized', this.activity));
    \x7d
    this.flush();
    for (var i = 0; i < pending.length; i++) \x7b
      this.deliver(pending[i]);
    \x7d
  \x7d;

"

/-- Making and sending statements. -/
def statements : String := "  Tracker.prototype.build = function (verbName, object, result, extra) \x7b
    var statement = \x7b
      id: uuid(),
      actor: this.actor || \x7b objectType: 'Agent', name: 'Anonymous', account: \x7b homePage: window.location.origin || 'urn:local', name: 'anonymous' \x7d \x7d,
      verb: verb(verbName),
      object: object,
      timestamp: new Date().toISOString()
    \x7d;
    if (result) \x7b
      statement.result = result;
    \x7d
    var context = \x7b contextActivities: \x7b grouping: [\x7b id: CONFIG.courseActivityId \x7d] \x7d \x7d;
    if (this.registration) \x7b
      context.registration = this.registration;
    \x7d
    if (extra && extra.parent) \x7b
      context.contextActivities.parent = [\x7b id: extra.parent \x7d];
    \x7d
    statement.context = context;
    return statement;
  \x7d;

  Tracker.prototype.send = function (statement) \x7b
    if (this.state === STATE.TERMINATED) \x7b
      return;
    \x7d
    if (this.state !== STATE.READY) \x7b
      this.queue.push(statement);
      return;
    \x7d
    this.flush();
    this.deliver(statement);
  \x7d;

  // Resend every statement the LRS has not accepted yet.
  Tracker.prototype.flush = function () \x7b
    var failed = this.failed;
    this.failed = [];
    for (var i = 0; i < failed.length; i++) \x7b
      this.deliver(failed[i]);
    \x7d
  \x7d;

"

/-- Delivering statements until they are accepted. -/
def delivery : String := "  // In-flight and failed statements are persisted together, so a page that
  // unloads mid-request hands them to the next page of the course.
  Tracker.prototype.persist = function () \x7b
    var undelivered = this.failed.slice();
    for (var id in this.unsettled) \x7b
      if (Object.prototype.hasOwnProperty.call(this.unsettled, id)) \x7b
        undelivered.push(this.unsettled[id]);
      \x7d
    \x7d
    writeStored('outbox', undelivered.length ? undelivered : null);
  \x7d;

  Tracker.prototype.deliver = function (statement) \x7b
    if (!this.endpoint) \x7b
      if (CONFIG.verbose && window.console) \x7b
        window.console.log('xAPI statement (no LRS):', statement);
      \x7d
      return;
    \x7d

    var self = this;
    var settled = false;
    var settle = function (delivered) \x7b
      if (settled) \x7b
        return;
      \x7d
      settled = true;
      delete self.unsettled[statement.id];
      if (!delivered) \x7b
        self.failed.push(statement);
        if (window.console) \x7b
          window.console.warn('xAPI statement was not delivered; it will be retried');
        \x7d
      \x7d
      self.persist();
    \x7d;

    this.unsettled[statement.id] = statement;
    this.persist();

    var xhr = new XMLHttpRequest();
    xhr.open('POST', this.endpoint + 'statements', true);
    xhr.setRequestHeader('Content-Type', 'application/json');
    xhr.setRequestHeader('X-Experience-API-Version', '1.0.3');
    if (this.auth) \x7b
      xhr.setRequestHeader('Authorization', this.auth);
    \x7d
    xhr.onload = function () \x7b
      // 409: the LRS already holds a statement with this id.
      settle((xhr.status >= 200 && xhr.status < 300) || xhr.status === 409);
    \x7d;
    xhr.onerror = function () \x7b
      settle(false);
    \x7d;
    xhr.send(JSON.stringify(statement));
  \x7d;

"

/-- Statements on lessons and answers. -/
def tracking : String := "  Tracker.prototype.trackLessonView = function (lessonId) \x7b
    var lesson = this.lesson(lessonId);
    if (!lesson) \x7b
      return;
    \x7d
    this.send(this.build('experienced', lesson, null, \x7b parent: CONFIG.courseActivityId \x7d));
  \x7d;

  Tracker.prototype.markLessonComplete = function (lessonId) \x7b
    var lesson = this.lesson(lessonId);
    if (!lesson) \x7b
      return;
    \x7d
    this.send(this.build('completed', lesson, \x7b completion: true \x7d, \x7b parent: CONFIG.courseActivityId \x7d));
  \x7d;

  Tracker.prototype.trackInteraction = function (interactionId, response, correct) \x7b
    var object = \x7b
      id: CONFIG.courseActivityId + '/interactions/' + encodeURIComponent(interactionId),
      definition: \x7b type: CONFIG.activityTypes.interaction \x7d
    \x7d;
    var result = \x7b response: String(response), success: !!correct \x7d;
    this.send(this.build('answered', object, result, \x7b parent: CONFIG.courseActivityId \x7d));
  \x7d;

  Tracker.prototype.lesson = function (lessonId) \x7b
    var lessons = window.LESSON_ACTIVITIES || [];
    for (var i = 0; i < lessons.length; i++) \x7b
      if (lessons[i].lessonId === lessonId) \x7b
        return \x7b
          id: lessons[i].id,
          definition: \x7b
            type: CONFIG.activityTypes.lesson,
            name: (function (name) \x7b var n = \x7b\x7d; n[CONFIG.language] = name; return n; \x7d)(lessons[i].name)
          \x7d
        \x7d;
      \x7d
    \x7d
    return null;
  \x7d;

  Tracker.prototype.terminate = function () \x7b
    if (this.state !== STATE.READY) \x7b
      return;
    \x7d
    this.send(this.build('terminated', this.activity, \x7b duration: formatDuration(Date.now() - this.startedAt) \x7d));
    this.state = STATE.TERMINATED;
  \x7d;

"

/-- What the page calls. -/
def wiring : String := "  // --- Wiring --------------------------------------------------------------

  var tracker = new Tracker();
  window.CoursePackXapi = tracker;

  window.trackInteraction = function (interactionId, response, correct) \x7b
    tracker.trackInteraction(interactionId, response, correct);
  \x7d;

  window.markLessonComplete = function (lessonId) \x7b
    tracker.markLessonComplete(lessonId);
  \x7d;

  window.trackAnswer = function (questionId, response, correct, el) \x7b
    var result = evaluate(el, response, correct);
    tracker.trackInteraction(questionId, response, result);
    showFeedback(el, result);
    return result;
  \x7d;

  document.addEventListener('DOMContentLoaded', function () \x7b
    propagateLaunch(window.location.search);
    tracker.initialize();
    var lessonId = document.body ? document.body.getAttribute('data-lesson-id') : null;
    if (lessonId) \x7b
      tracker.trackLessonView(lessonId);
    \x7d
  \x7d);
  window.addEventListener('online', function () \x7b
    tracker.flush();
  \x7d);
  window.finishCourse = function () \x7b
    tracker.terminate();
  \x7d;
\x7d)(window, document);
"

end XapiWrapper

/-- The script that sends xAPI statements. -/
def xapiWrapper : Template where
  name := "xapi-wrapper.js"
  source :=
    XapiWrapper.head ++ XapiWrapper.support ++ XapiWrapper.storage ++ XapiWrapper.links ++
      XapiWrapper.start ++ XapiWrapper.statements ++ XapiWrapper.delivery ++
      XapiWrapper.tracking ++ answerChecks ++ answerFeedback ++ XapiWrapper.wiring

end Courseware.Script
