import Courseware.Script.Feedback

/-!
The script of packages with a course index: it keeps progress in the browser and checks answers.
-/

namespace Courseware.Script

namespace Navigation

/-- What the script says about itself, and its configuration. -/
def head : String := "/*
 * coursepack navigation and progress tracking.
 *
 * Progress is kept in localStorage under a per-course key so several
 * courses can share an origin.
 */
(function (window, document) \x7b
  'use strict';

  var CONFIG = /*@coursepack-config@*/null;

"

/-- The record of progress and how it is shown. -/
def progress : String := "  function load() \x7b
    try \x7b
      var raw = window.localStorage.getItem(CONFIG.storageKey);
      var data = raw ? JSON.parse(raw) : null;
      if (data && data.visited && data.answers) \x7b
        return data;
      \x7d
    \x7d catch (err) \x7b
      // Unavailable or corrupt storage falls back to an empty record.
    \x7d
    return \x7b visited: \x7b\x7d, completed: \x7b\x7d, answers: \x7b\x7d \x7d;
  \x7d

  function save(progress) \x7b
    if (!CONFIG.trackProgress) \x7b
      return;
    \x7d
    try \x7b
      window.localStorage.setItem(CONFIG.storageKey, JSON.stringify(progress));
    \x7d catch (err) \x7b
      // Quota or privacy mode; progress stays in memory.
    \x7d
  \x7d

  var progress = load();
  progress.completed = progress.completed || \x7b\x7d;

  function markVisited(lessonId) \x7b
    progress.visited[lessonId] = true;
    save(progress);
  \x7d

  function markCompleted(lessonId) \x7b
    progress.completed[lessonId] = true;
    save(progress);
    render();
  \x7d

  function percentComplete() \x7b
    if (!CONFIG.lessons.length) \x7b
      return 0;
    \x7d
    var done = 0;
    for (var i = 0; i < CONFIG.lessons.length; i++) \x7b
      if (progress.completed[CONFIG.lessons[i]] || progress.visited[CONFIG.lessons[i]]) \x7b
        done += 1;
      \x7d
    \x7d
    return Math.round((done / CONFIG.lessons.length) * 100);
  \x7d

  function render() \x7b
    var bar = document.querySelector('[data-progress]');
    if (bar) \x7b
      var pct = percentComplete();
      bar.style.width = pct + '%';
      bar.setAttribute('aria-valuenow', String(pct));
    \x7d
    var links = document.querySelectorAll('[data-lesson-id]');
    for (var i = 0; i < links.length; i++) \x7b
      var id = links[i].getAttribute('data-lesson-id');
      if (links[i].tagName === 'A' && (progress.visited[id] || progress.completed[id])) \x7b
        links[i].classList.add('visited');
      \x7d
    \x7d
  \x7d

"

/-- What the page calls. -/
def wiring : String := "  window.checkAnswer = function (questionId, response, correct, el) \x7b
    var result = evaluate(el, response, correct);
    progress.answers[questionId] = \x7b response: response, correct: result \x7d;
    save(progress);

    var question = closestQuestion(el);
    if (question) \x7b
      var feedback = question.querySelector('.feedback');
      if (feedback) \x7b
        feedback.textContent = result ? 'Correct!' : 'Not quite. Try again.';
        feedback.className = 'feedback ' + (result ? 'is-correct' : 'is-incorrect');
        feedback.hidden = false;
      \x7d
      var explanation = question.querySelector('.explanation');
      if (explanation) \x7b
        explanation.hidden = false;
      \x7d
    \x7d
    return result;
  \x7d;

  window.CoursePackNavigation = \x7b
    progress: function () \x7b return progress; \x7d,
    percentComplete: percentComplete,
    markCompleted: markCompleted,
    reset: function () \x7b
      progress = \x7b visited: \x7b\x7d, completed: \x7b\x7d, answers: \x7b\x7d \x7d;
      save(progress);
      render();
    \x7d
  \x7d;

  document.addEventListener('DOMContentLoaded', function () \x7b
    var lessonId = document.body ? document.body.getAttribute('data-lesson-id') : null;
    if (lessonId) \x7b
      markVisited(lessonId);
    \x7d
    render();
  \x7d);
\x7d)(window, document);
"

end Navigation

/-- The script that keeps progress. -/
def navigation : Template where
  name := "navigation.js"
  source :=
    Navigation.head ++ Navigation.progress ++ answerChecks ++ Navigation.wiring

end Courseware.Script
